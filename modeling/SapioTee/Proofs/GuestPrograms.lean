import SapioTee.Proofs.GuestAbi
import SapioTee.Proofs.SignerNonces
import SapioTee.Proofs.TemplateBinding
import SapioTee.Proofs.TemplateRoom
import SapioTee.Proofs.Vault

/-!
# The example programs, from the client's commitment to a released share

A client commits to a module and its parameters, the signer evaluates that
module over the transaction it is asked to sign. Here the two meet: the
vault's `instance` and the template example's `instance_for` on one side,
`authorize` and whole runs of the signer on the other, with the guest ABI
between them. What the programs are for is a statement about transactions:
a vault signs sweeps to its destination, a template program signs the one
template it was made from.
-/

namespace SapioTee

open Lib Guest

variable {T : Types} {C : Crates T}

/-! ## Inline programs -/

/-- `ProgramInstance::wasm` makes an inline program of the first version. -/
def InlinesWasm (C : Crates T)
    (wasm : Bytes → Bytes → Except String ProgramInstance) : Prop :=
  ∀ module parameters program, wasm module parameters = .ok program →
    C.inlineWasmVersion program.evaluator = some .v1 ∧
      program.program = module ∧ program.parameters = parameters

/-- What `authorize` has checked when it asks the guest. -/
structure Presented (C : Crates T) (input : SigningInput) (message : Hash) :
    Prop where
  psbt : C.validatePsbt input.psbt = .ok ()
  sighash : C.sighash input = .ok message
  metadata : checkMetadata C input = .ok ()

theorem checkPsbt_ok_iff {psbt : Psbt} :
    checkPsbt C psbt = .ok () ↔ C.validatePsbt psbt = .ok () := by
  unfold checkPsbt
  constructor
  · intro h
    split at h
    · next hok => exact hok
    · cases h
  · intro h
    rw [h]

/-- An inline program is evaluated as it is, with an empty selector. -/
theorem authorize_inline_iff {registry : List WasmEvaluator}
    {program : ProgramInstance} {input : SigningInput} {witness : Bytes}
    {message : Hash} {version : WasmVersion}
    (hinline : C.inlineWasmVersion program.evaluator = some version) :
    authorize C registry program input witness message = .ok () ↔
      Presented C input message ∧
        SapioTee.evaluate C version program.program [] program.parameters input
          witness = .ok true := by
  have hselect : selectModule C registry program
      = .ok (program.program, [], version) := by
    unfold selectModule
    rw [hinline]
  constructor
  · intro h
    obtain ⟨_, hpsbt, h⟩ := bind_ok h
    obtain ⟨hash, hhash, h⟩ := bind_ok h
    obtain ⟨_, heq, h⟩ := bind_ok h
    obtain ⟨_, hmetadata, h⟩ := bind_ok h
    rw [hselect, ok_bind] at h
    have hmessage := eq_of_beq (ensure_ok heq)
    refine ⟨⟨checkPsbt_ok_iff.mp hpsbt, ?_, hmetadata⟩, ?_⟩
    · rw [outside_ok hhash, hmessage]
    · simp only [] at h
      split at h
      · cases h
      · cases h
      · next hok => exact hok
  · rintro ⟨hpresented, heval⟩
    unfold authorize
    rw [checkPsbt_ok_iff.mpr hpresented.psbt, ok_bind, hpresented.sighash]
    show (ensure (message == message) _ >>= fun _ => _) = _
    rw [beq_self_eq_true]
    show (checkMetadata C input >>= fun _ => _) = _
    rw [hpresented.metadata, ok_bind, hselect, ok_bind]
    simp only [heval]

theorem checkPolicyProgram_of {program : ProgramInstance}
    {policy : Option (NativePolicy T)}
    (h : policy = none ∨ (C.inlineWasmVersion program.evaluator).isSome) :
    checkPolicyProgram C program policy = .ok () := by
  unfold checkPolicyProgram
  rw [if_neg]
  rintro ⟨hsome, hnone⟩
  rcases h with rfl | hinline
  · cases hsome
  · rw [Option.isNone_iff_eq_none.mp hnone] at hinline
    cases hinline

theorem authorizeAction_of_approved {self : ArkSigner T} {key : ProgramKey T}
    {grant : Grant T} {policy : Option (NativePolicy T)}
    {action : SigningAction T}
    (h : Approved C self key grant policy action) :
    authorizeAction C self key grant policy action = .ok () := by
  cases action with
  | spend spend =>
      obtain ⟨input, hinput, -, hauthorize⟩ := h
      show (outside (C.signingInput spend key) >>= fun input =>
        authorize C self.evaluators grant.program input spend.witness
          grant.intent.message) = .ok ()
      rw [hinput]
      exact hauthorize
  | ownership ownership =>
      obtain ⟨hmessage, hpolicy⟩ := h
      have hcheck : (outside (C.ownershipMessage ownership key) >>=
          fun message => ensure (message == grant.intent.message)
            "ownership request differs from the nested signing intent")
          = .ok () := by
        rw [hmessage]
        show ensure (grant.intent.message == grant.intent.message) _ = _
        rw [beq_self_eq_true]
        rfl
      cases policy with
      | none => exact hcheck
      | some p =>
          show (p.enforce ownership.proof >>= fun _ => _) = .ok ()
          rw [hpolicy p rfl]
          exact hcheck

/-- What the checks establish is all they ask for. -/
theorem authorize_of_admitted {self : ArkSigner T}
    {request : PrepareRequest T} {grant : Grant T}
    (h : Admitted C self request grant) :
    prepareAuthorize C self request = .ok grant := by
  obtain ⟨parsed, hparsed, hnonce⟩ := h.userNonce
  obtain ⟨derived, hderived, hmember⟩ := h.member
  obtain ⟨policy, hpolicy, happroved⟩ := h.action
  have hparts := programInstance_ok h.program
  have hinline : checkPolicyProgram C grant.program policy = .ok () := by
    refine checkPolicyProgram_of ?_
    rw [hparts]
    rcases h.envelope with hnone | ⟨-, hinline⟩
    · refine .inl (Except.ok.inj (hpolicy.symm.trans ?_))
      exact (NativePolicy.parse_eq_none_iff C _).mpr hnone
    · exact .inr hinline
  have hensure : ∀ text, ensure true text = .ok () := fun _ => rfl
  have houtside : ∀ {α : Type} (x : α), outside (.ok x) = .ok x :=
    fun _ => rfl
  have hparameters : grant.program.parameters
      = request.key.program.parameters := by rw [hparts]
  unfold prepareAuthorize
  rw [h.protocol, beq_self_eq_true, hensure, ok_bind, h.intent, houtside,
    hparsed, houtside]
  rw [beq_iff_eq.mpr h.root, hensure, ok_bind, ok_bind, ok_bind, hnonce,
    houtside, ok_bind, h.program, ok_bind, beq_iff_eq.mpr h.identity, hensure,
    ok_bind, hderived, houtside, ok_bind]
  rw [show (C.evenPublicKey derived == grant.intent.members[1]) = true from
    beq_iff_eq.mpr hmember, hensure, ok_bind, hparameters, hpolicy, ok_bind,
    hinline, ok_bind, authorizeAction_of_approved happroved, ok_bind]
  rfl

theorem step_prepare_of_admitted {self : ArkSigner T} {w : World T}
    {request : PrepareRequest T} {grant : Grant T}
    (h : Admitted C self request grant) :
    (signer C self).step w (.prepare request)
      = (w.enter (.authorized request grant), []) := by
  show World.stepPrepare C self w request = _
  unfold World.stepPrepare
  rw [authorize_of_admitted h]

/-- The checks decide what a prepare goes on with. -/
theorem Admitted.unique {self : ArkSigner T} {request : PrepareRequest T}
    {grant other : Grant T} (h : Admitted C self request grant)
    (h' : Admitted C self request other) :
    grant.intent = other.intent ∧ grant.userNonce = other.userNonce := by
  have hintent : grant.intent = other.intent :=
    Except.ok.inj (h.intent.symm.trans h'.intent)
  refine ⟨hintent, ?_⟩
  obtain ⟨parsed, hparsed, hnonce⟩ := h.userNonce
  obtain ⟨parsed', hparsed', hnonce'⟩ := h'.userNonce
  rw [Except.ok.inj (hparsed.symm.trans hparsed'), hintent] at hnonce
  exact Except.ok.inj (hnonce.symm.trans hnonce')

/-! ## The vault -/

namespace Vault

/-- The vault's predicate allocates nothing. -/
def predicate (_ : Arena) (args : Arguments) : Option Bool :=
  Vault.evaluate args

theorem evaluate_some {args : Arguments} {b : Bool}
    (h : Vault.evaluate args = some b) :
    args.program = [] ∧ args.witness = [] := by
  unfold Vault.evaluate at h
  split at h
  · cases h
  · next hempty =>
      simp only [Bool.or_eq_true, Bool.not_eq_true', not_or,
        Bool.not_eq_false, List.isEmpty_iff] at hempty
      exact hempty

theorem contractInstance_ok
    {wasm : Bytes → Bytes → Except String ProgramInstance}
    (hwasm : InlinesWasm C wasm) {vaultWasm : Bytes} {maxFee : UInt64}
    {destination : Script} {program : ProgramInstance}
    (h : contractInstance wasm vaultWasm maxFee destination = .ok program) :
    C.inlineWasmVersion program.evaluator = some .v1 ∧
      program.program = vaultWasm ∧
      instanceParameters maxFee destination = .ok program.parameters := by
  obtain ⟨parameters, hparameters, h⟩ := bind_ok h
  obtain ⟨hinline, hprogram, hsame⟩ := hwasm _ _ _ (outside_ok h)
  exact ⟨hinline, hprogram, by rw [hsame]; exact hparameters⟩

variable {vaultWasm : Bytes}
  {wasm : Bytes → Bytes → Except String ProgramInstance} {maxFee : UInt64}
  {destination : Script} {program : ProgramInstance}

/-- An authorization under a vault is of its sweep, whatever the engine does
short of answering wrongly. -/
theorem sweep_of_authorize (hgrow : NeverShrinks C)
    (compiled : Compiles C .v1 vaultWasm predicate)
    (hwasm : InlinesWasm C wasm)
    (hcontract : contractInstance wasm vaultWasm maxFee destination
      = .ok program)
    {registry : List WasmEvaluator} {input : SigningInput} {witness : Bytes}
    {message : Hash}
    (h : authorize C registry program input witness message = .ok ()) :
    ∃ view, Presented C input message ∧
      encodeView .v1 input = .ok view ∧
      WithinLimits [] program.parameters view witness ∧ witness = [] ∧
      Sweep maxFee destination input := by
  obtain ⟨hinline, hprogram, hparameters⟩ :=
    contractInstance_ok hwasm hcontract
  obtain ⟨hpresented, heval⟩ := (authorize_inline_iff hinline).mp h
  rw [hprogram] at heval
  obtain ⟨view, arena, hview, hlimits, -, hanswer⟩ :=
    compiled.evaluate_ok hgrow heval
  obtain ⟨-, hwitness⟩ := evaluate_some hanswer
  have hempty : witness = [] := hwitness
  subst hempty
  obtain ⟨answer, hvault, hsweep⟩ :=
    Vault.evaluate_eq hparameters hlimits.parameters hview
  have hsame : some answer = some true := hvault.symm.trans hanswer
  exact ⟨view, hpresented, hview, hlimits, rfl,
    hsweep.mp (Option.some.inj hsame)⟩

/-- A sweep's inputs are known and its selected one is there. -/
theorem Sweep.present {input : SigningInput}
    (h : Sweep maxFee destination input) :
    (∀ map ∈ input.psbt.inputs, map.witnessUtxo.isSome) ∧
      input.inputIndex < input.psbt.unsignedTx.input.length := by
  obtain ⟨hinputs, hindex, prevout, -, hprevouts, -⟩ := h
  refine ⟨?_, by omega⟩
  intro map hmem
  have hin := List.mem_map_of_mem (f := PsbtInput.witnessUtxo) hmem
  rw [hprevouts, List.mem_singleton] at hin
  rw [hin]
  rfl

/-- The signer authorizes a spend under a vault only if it is the sweep the
client committed to; and, if the vault's module runs without a trap, exactly
if the request is well formed, carries no witness, is within the host's limits
and is that sweep. -/
theorem authorize_vault_iff {T : Types} (C : Crates T)
    (hgrow : NeverShrinks C) {vaultWasm : Bytes}
    (compiled : Compiles C .v1 vaultWasm predicate)
    (wasm : Bytes → Bytes → Except String ProgramInstance)
    (hwasm : InlinesWasm C wasm) (maxFee : UInt64) (destination : Script)
    (program : ProgramInstance)
    (hcontract : contractInstance wasm vaultWasm maxFee destination
      = .ok program)
    (registry : List WasmEvaluator) (input : SigningInput) (witness : Bytes)
    (message : Hash) :
    (authorize C registry program input witness message = .ok () →
      Presented C input message ∧ witness = [] ∧
        Sweep maxFee destination input) ∧
    (Finishes compiled → Runnable C .v1 vaultWasm →
      (authorize C registry program input witness message = .ok () ↔
        Presented C input message ∧
          destination.length + 12 ≤ maxParameterBytes ∧
          viewBytes .v1 input ≤ maxSignedViewBytes ∧ witness = [] ∧
          Sweep maxFee destination input)) := by
  obtain ⟨hinline, hprogram, hparameters⟩ :=
    contractInstance_ok hwasm hcontract
  have hlength : program.parameters.length = destination.length + 12 := by
    unfold instanceParameters at hparameters
    split at hparameters
    · cases hparameters
    · injection hparameters with hparameters
      rw [← hparameters, List.length_append, List.length_append,
        length_u64Le, length_u32Le]
      omega
  refine ⟨?_, ?_⟩
  · intro h
    obtain ⟨view, hpresented, -, -, hwitness, hsweep⟩ :=
      sweep_of_authorize hgrow compiled hwasm hcontract h
    exact ⟨hpresented, hwitness, hsweep⟩
  · intro finishes hrunnable
    constructor
    · intro h
      obtain ⟨view, hpresented, hview, hlimits, hwitness, hsweep⟩ :=
        sweep_of_authorize hgrow compiled hwasm hcontract h
      have hparameter := hlimits.parameters
      refine ⟨hpresented, by omega, ?_, hwitness, hsweep⟩
      rw [← length_encodeView hview]
      exact hlimits.view
    · rintro ⟨hpresented, hsize, hbytes, rfl, hsweep⟩
      obtain ⟨hpresent, hindex⟩ := hsweep.present
      obtain ⟨view, hview⟩ :=
        (@exists_encodeView_iff .v1 input hpresent hindex).mpr
          ⟨hbytes, nofun⟩
      have hlimits : WithinLimits [] program.parameters view [] :=
        ⟨Nat.zero_le _, by omega, length_le_of_encodeView hview,
          Nat.zero_le _⟩
      obtain ⟨arena, -, heval⟩ :=
        Compiles.evaluate_eq hgrow finishes hrunnable hview hlimits
      obtain ⟨answer, hvault, hiff⟩ :=
        Vault.evaluate_eq hparameters hlimits.parameters hview
      have hanswer : predicate arena ⟨[], program.parameters, view, []⟩
          = some true := by
        rw [predicate, hvault, hiff.mpr hsweep]
      refine (authorize_inline_iff hinline).mpr ⟨hpresented, ?_⟩
      rw [hprogram, heval, hanswer]
      rfl

/-- This prepare is of a spend under this program. -/
def SpendsUnder (program : ProgramInstance) (spend : SpendRequest T)
    (request : PrepareRequest T) : Prop :=
  request.action = .spend spend ∧
    request.key.program.evaluator = program.evaluator ∧
    request.key.program.program = program.program ∧
    request.key.program.parameters = program.parameters

/-- In every run of a signer, whatever the engine does short of answering
wrongly: a share that a finish released is the one the signature right before
made, no other signature of the run used that nonce, and one earlier prepare
licenses it, whose intent it is over; and if that prepare was of a spend under
a vault, the intent's message is the sighash of a sweep to the vault's
destination within its cap. -/
theorem released_sweeps {T : Types} (C : Crates T) (hgrow : NeverShrinks C)
    {vaultWasm : Bytes} (compiled : Compiles C .v1 vaultWasm predicate)
    (wasm : Bytes → Bytes → Except String ProgramInstance)
    (hwasm : InlinesWasm C wasm) (self : ArkSigner T) (acts : List (Act T))
    {pre post : List (Event T)} {call : Nat} {request : FinishRequest}
    {response : FinishResponse}
    (h : (signer C self).trace acts
      = pre ++ .finished call request (.ok response) :: post) :
    ∃ nonce keypair session earlier opener prepare now opened entry,
      pre = earlier ++ [.signed call nonce keypair session] ∧
      (∃ share, C.nonceSign nonce.secret keypair session = .ok share ∧
        response = ⟨signingProtocol, hexEncode (C.serializePartial share)⟩) ∧
      (∀ e ∈ earlier ++ post, e.signedNonce ≠ some nonce.serial) ∧
      (∃ before after,
        earlier = before ++ .prepared opener prepare now opened entry :: after ∧
        Licenses C self nonce keypair session
          (.prepared opener prepare now opened entry) ∧
        ∀ e ∈ before ++ after, ¬ Licenses C self nonce keypair session e) ∧
      entry.nonce = nonce ∧
      (∃ serverNonce, C.sessionNew entry.intent entry.userNonce
        (C.noncePublic nonce.secret) serverNonce = .ok session) ∧
      ∀ maxFee destination program spend,
        contractInstance wasm vaultWasm maxFee destination = .ok program →
        SpendsUnder program spend prepare →
        ∃ input, C.signingInput spend prepare.key = .ok input ∧
          C.sighash input = .ok entry.intent.message ∧
          Sweep maxFee destination input := by
  have hreach := reached_run C self acts
  obtain ⟨nonce, keypair, session, hlast, hshare, before, e, after, hpre, hlic,
    honly⟩ := released_of_reached hreach pre _ post h
  obtain ⟨earlier, rfl⟩ := List.getLast?_eq_some_iff.mp hlast
  have hsigned := signed_only hreach (h.trans (List.append_assoc _ _ _))
  cases e with
  | prepared opener prepare now opened entry =>
      have hlicenses := hlic
      obtain ⟨hnonce, -, grant, hadmitted, -, ⟨serverNonce, hsession⟩, -⟩ := hlic
      have hmem : .prepared opener prepare now opened entry
          ∈ (signer C self).trace acts := by
        rw [h, hpre]
        simp
      obtain ⟨minted, hminted⟩ := (history_of_reached hreach).minted hmem
      have hchecked := admitted_of_authorize hminted.admitted
      obtain ⟨hintent, huser⟩ := hadmitted.unique hchecked
      rw [hintent, huser, ← hminted.intent, ← hminted.userNonce] at hsession
      refine ⟨nonce, keypair, session, earlier, opener, prepare, now, opened,
        entry, rfl, hshare, ?_, ?_, hnonce, ⟨serverNonce, hsession⟩, ?_⟩
      · intro e he
        refine hsigned e ?_
        rcases List.mem_append.mp he with hold | hnew
        · exact List.mem_append_left _ hold
        · exact List.mem_append_right _ (List.mem_cons_of_mem _ hnew)
      · rcases List.eq_nil_or_concat after with rfl | ⟨rest, last, rfl⟩
        · cases (List.append_inj' hpre rfl).2
        · rw [List.concat_eq_append, ← List.cons_append,
            ← List.append_assoc] at hpre
          refine ⟨before, rest, (List.append_inj' hpre rfl).1, hlicenses,
            ?_⟩
          intro e he
          refine honly e ?_
          rw [List.concat_eq_append, ← List.append_assoc]
          exact List.mem_append_left _ he
      rintro maxFee destination program spend hcontract
        ⟨haction, hevaluator, hprogram, hparameters⟩
      obtain ⟨policy, -, happroved⟩ := hchecked.action
      rw [haction] at happroved
      obtain ⟨input, hinput, hsighash, hauthorize⟩ := happroved
      have hsame : minted.program = program := by
        rw [programInstance_ok hchecked.program, hevaluator, hprogram,
          hparameters]
      rw [hsame] at hauthorize
      obtain ⟨view, -, -, -, -, hsweep⟩ :=
        sweep_of_authorize hgrow compiled hwasm hcontract hauthorize
      exact ⟨input, hinput, by rw [hminted.intent]; exact hsighash, hsweep⟩
  | _ => cases hlic

/-! ### A vault to run -/

/-- Every spend is of the one-input transaction. -/
def vaultBase : Crates symbolicTypes :=
  { symbolicCrates with
    signingInput := fun _ _ => .ok oneInputSpend
    sighash := fun _ => .ok (hashOf 1) }

def crates : Crates symbolicTypes := wordCrates vaultBase predicate

def wasmInstance (module parameters : Bytes) : Except String ProgramInstance :=
  .ok ⟨hashOf 1, module, parameters⟩

theorem inlinesWasm_wasmInstance : InlinesWasm crates wasmInstance := by
  intro module parameters program h
  injection h with h
  subst h
  exact ⟨rfl, rfl, rfl⟩

theorem presented_oneInputSpend :
    Presented crates oneInputSpend (hashOf 1) := ⟨rfl, rfl, rfl⟩

theorem sweep_oneInputSpend : Sweep 100 [81] oneInputSpend :=
  ⟨rfl, rfl, ⟨1000, [82]⟩, ⟨900, [81]⟩, rfl, rfl, rfl, by decide, by decide,
    by decide⟩

def vaultParameters : Bytes := [100, 0, 0, 0, 0, 0, 0, 0, 1, 0, 0, 0, 81]

def vaultProgram : ProgramInstance := ⟨hashOf 1, wordModule, vaultParameters⟩

theorem authorize_vaultProgram :
    authorize crates [] vaultProgram oneInputSpend [] (hashOf 1) = .ok () := by
  have hinline : crates.inlineWasmVersion vaultProgram.evaluator
      = some .v1 := rfl
  refine (authorize_inline_iff hinline).mpr ⟨presented_oneInputSpend, ?_⟩
  obtain ⟨view, hview⟩ : ∃ view, encodeView .v1 oneInputSpend = .ok view :=
    ⟨_, rfl⟩
  obtain ⟨arena, -, heval⟩ := Compiles.evaluate_eq
    (wordCrates_neverShrinks vaultBase predicate)
    (wordCompiles_finishes vaultBase predicate .v1 wordModule)
    (wordCrates_runnable predicate .v1 rfl) hview
    (show WithinLimits [] vaultParameters view [] from ⟨Nat.zero_le _,
      by decide, length_le_of_encodeView hview, Nat.zero_le _⟩)
  have hparameters : instanceParameters 100 [81] = .ok vaultParameters := rfl
  obtain ⟨answer, hvault, hiff⟩ := Vault.evaluate_eq hparameters (by decide)
    hview
  have hanswer : predicate arena ⟨[], vaultParameters, view, []⟩
      = some true := by
    rw [predicate, hvault, hiff.mpr sweep_oneInputSpend]
  rw [hanswer] at heval
  exact heval

theorem authorize_vault_iff_oneInputSpend :
    authorize crates [] vaultProgram oneInputSpend [] (hashOf 1)
      = .ok () :=
  ((authorize_vault_iff crates (wordCrates_neverShrinks vaultBase predicate)
    (wordCompiles vaultBase predicate .v1 wordModule) wasmInstance
    inlinesWasm_wasmInstance 100 [81] vaultProgram rfl [] oneInputSpend []
    (hashOf 1)).2 (wordCompiles_finishes _ _ _ _)
    (wordCrates_runnable predicate .v1 rfl)).mpr
    ⟨presented_oneInputSpend, by decide, by decide, rfl, sweep_oneInputSpend⟩

/-- A wallet asks for a spend under the vault. -/
def vaultRequest : PrepareRequest symbolicTypes where
  protocol := signingProtocol
  key := ⟨⟨hashOf 1, wordModule, vaultParameters⟩, Symbolic.root,
    [hashOf 1]⟩
  action := .spend ⟨0, []⟩
  userNonce := "nonce"

def vaultGrant : Grant symbolicTypes where
  intent := ⟨#v[[hashOf 1], Symbolic.root ++ [hashOf 1]], none, hashOf 1, none⟩
  userNonce := []
  program := vaultProgram

theorem admitted_vaultRequest :
    Admitted crates Symbolic.self vaultRequest vaultGrant where
  protocol := rfl
  root := rfl
  intent := rfl
  userNonce := ⟨"nonce", rfl, rfl⟩
  program := rfl
  identity := rfl
  member := ⟨Symbolic.root ++ [hashOf 1], rfl, rfl⟩
  envelope := .inl (by decide)
  action := ⟨none, rfl, oneInputSpend, rfl, rfl, authorize_vaultProgram⟩

/-- The spend is prepared, finished and signed. -/
def vaultRun : List (Act symbolicTypes) :=
  [.prepare vaultRequest, .readClock 0, .reserve 0 0 [hashOf 5],
    .finish (Symbolic.finishRequest 5), .sign 1]

theorem trace_vaultRun :
    ∃ now opened entry found nonce keypair session response,
      (signer crates Symbolic.self).trace vaultRun
        = [.prepared 0 vaultRequest now opened entry,
            .took 1 (hashOf 5) found, .signed 1 nonce keypair session]
          ++ [.finished 1 (Symbolic.finishRequest 5) (.ok response)] := by
  have hrun : (signer crates Symbolic.self).trace vaultRun
      = ((signer crates Symbolic.self).runFrom
          (World.start.enter (.authorized vaultRequest vaultGrant))
          vaultRun.tail).2 := by
    rw [Machine.trace, Machine.run, vaultRun, Machine.runFrom]
    rw [show (signer crates Symbolic.self).init = World.start from rfl,
      step_prepare_of_admitted admitted_vaultRequest]
    rfl
  rw [hrun]
  exact ⟨_, _, _, _, _, _, _, _, rfl⟩

theorem released_sweeps_vaultRun :
    ∃ opener now opened entry input,
      .prepared opener vaultRequest now opened entry
        ∈ (signer crates Symbolic.self).trace vaultRun ∧
      crates.signingInput ⟨0, []⟩ vaultRequest.key = .ok input ∧
      crates.sighash input = .ok entry.intent.message ∧
      Sweep 100 [81] input := by
  obtain ⟨_, _, _, _, _, _, _, response, htrace⟩ := trace_vaultRun
  obtain ⟨nonce, keypair, session, earlier, opener, prepare, now, opened,
    entry, hpre, -, -, ⟨before, after, hcut, -⟩, -, -, hspend⟩ :=
    released_sweeps crates (wordCrates_neverShrinks vaultBase predicate)
      (wordCompiles vaultBase predicate .v1 wordModule) wasmInstance
      inlinesWasm_wasmInstance Symbolic.self vaultRun htrace
  have hmem : Event.prepared opener prepare now opened entry
      ∈ earlier ++ [.signed 1 nonce keypair session] := by
    rw [hcut]
    simp
  rw [← hpre] at hmem
  have hprepare : prepare = vaultRequest := by
    simp only [List.mem_cons, List.not_mem_nil, or_false,
      reduceCtorEq] at hmem
    injection hmem
  subst hprepare
  obtain ⟨input, hinput, hsighash, hsweep⟩ :=
    hspend 100 [81] vaultProgram ⟨0, []⟩ rfl ⟨rfl, rfl, rfl, rfl⟩
  refine ⟨opener, now, opened, entry, input, ?_, hinput, hsighash, hsweep⟩
  rw [htrace]
  exact List.mem_append_left _ hmem

end Vault

/-! ## The template -/

namespace Predicate

open Client

variable {sha256 : Bytes → Hash}

theorem evaluate_some {arena : Arena} {args : Arguments} {b : Bool}
    (h : Predicate.evaluate sha256 arena args = some b) :
    args.program = [] ∧ args.witness = [] := by
  unfold Predicate.evaluate at h
  split at h
  · cases h
  · next hempty =>
      simp only [Bool.or_eq_true, Bool.not_eq_true', not_or,
        Bool.not_eq_false, List.isEmpty_iff] at hempty
      exact hempty

/-- An arena is its place and what is used of it. -/
theorem arena_ext {a b : Arena} (hstart : a.start = b.start)
    (hused : a.used = b.used) : a = b := by
  obtain ⟨start, used, _, _, _⟩ := a
  obtain ⟨start', used', _, _, _⟩ := b
  have hs : start = start' := hstart
  have hu : used = used' := hused
  subst hs hu
  rfl

/-- The arena the guest is called with is the one the host left. -/
theorem eq_hostAllocated {arena : Arena} {p : Hash} {view : Bytes}
    (hlen : view.length ≤ maxSignedViewBytes)
    (hused : arena.used = totalBytes [[], p.toList, view, []]) :
    arena = hostAllocated
      (Arena.fresh arena.start arena.start_pos arena.inside) view := by
  have hmax : maxSignedViewBytes = 1048576 := rfl
  have hcapacity : inputCapacity = 1245184 := rfl
  have hroom : (Arena.fresh arena.start arena.start_pos arena.inside).used
      + 32 + view.length ≤ inputCapacity := by
    show 0 + 32 + view.length ≤ inputCapacity
    omega
  refine arena_ext ?_ ?_
  · rw [hostAllocated, start_sapioAllocV1, start_sapioAllocV1]
    rfl
  · rw [used_hostAllocated _ view hroom, hused]
    show 0 + (p.toList.length + (view.length + (0 + 0)))
      = 0 + 32 + view.length
    rw [Vector.length_toList]
    omega

/-- The transaction has the template that was committed to, at the index
that was committed to, and the predicate has room to see it. -/
structure Reproduces (committed : Transaction) (index : UInt32)
    (input : SigningInput) : Prop where
  spend : SameSpend committed input.psbt.unsignedTx
  index : index.toNat = input.inputIndex
  inside : input.inputIndex < input.psbt.unsignedTx.input.length
  room : ∃ view, encodeView .v1 input = .ok view ∧ Fits input view

/-- Over an encoded view the predicate accepts exactly the committed
template. -/
theorem evaluate_iff_reproduces {committed : Transaction} {index : UInt32}
    {input : SigningInput} {view : Bytes} {arena : Arena}
    (hsized : Sized committed.output)
    (hfree : CollisionFree sha256 (hashed sha256 committed index ++
      hashed sha256 input.psbt.unsignedTx (UInt32.ofNat input.inputIndex)))
    (hview : encodeView .v1 input = .ok view)
    (hused : arena.used = totalBytes [[],
      (templateHash sha256 committed index).toList, view, []]) :
    Predicate.evaluate sha256 arena
        ⟨[], (templateHash sha256 committed index).toList, view, []⟩
      = some true ↔ Reproduces committed index input := by
  obtain ⟨hlower, hupper⟩ := encoded_bounds hview
  have hmax : maxSignedViewBytes = 1048576 := rfl
  have hcapacity : inputCapacity = 1245184 := rfl
  have hsame := eq_hostAllocated hupper hused
  have htotal : arena.used = 32 + view.length := by
    rw [hused]
    show 0 + ((templateHash sha256 committed index).toList.length +
      (view.length + (0 + 0))) = 32 + view.length
    rw [Vector.length_toList]
    omega
  have houtputs : Sized input.psbt.unsignedTx.output := by
    intro o ho
    have hle := script_le_outputBytes ho
    omega
  constructor
  · intro h
    by_cases hindex : input.inputIndex < input.psbt.unsignedTx.input.length
    · by_cases hfits : Fits input view
      · rw [hsame, evaluate_hostAllocated sha256 _ _ _ hview hindex hfits] at h
        have hhash := eq_of_beq (Option.some.inj h)
        obtain ⟨hspend, hsameIndex⟩ :=
          templateHash_inj sha256 hsized houtputs hfree hhash
        refine ⟨hspend, ?_, hindex, view, hview, hfits⟩
        rw [hsameIndex]
        exact UInt32.toNat_ofNat_of_lt' (show input.inputIndex < 2 ^ 32 by
          omega)
      · unfold Fits at hfits
        rw [evaluate_none_of_room sha256 _ hview hindex (by omega) (by omega)]
          at h
        cases h
    · rw [evaluate_none_of_index sha256 _ hview (by omega)] at h
      cases h
  · rintro ⟨hspend, hindex, hinside, view', hview', hfits⟩
    rw [hview] at hview'
    injection hview' with hview'
    subst hview'
    have hword : UInt32.ofNat input.inputIndex = index := by
      rw [← hindex, UInt32.ofNat_toNat]
    rw [hsame, evaluate_hostAllocated sha256 _ _ _ hview hinside hfits, hword,
      hspend.templateHash_eq sha256 index, beq_self_eq_true]

/-- The signer authorizes a spend under a template program only if it has
the template the program was made from, at the same input; and, if the module
runs without a trap, exactly if the request is well formed, carries no witness
and reproduces that template within the predicate's room. Two templates are
the same unless SHA-256 collides on what was hashed of them. -/
theorem authorize_template_iff {T : Types} (C : Crates T)
    (hgrow : NeverShrinks C) (sha256 : Bytes → Hash)
    {templatehashWasm : Bytes}
    (compiled : Compiles C .v1 templatehashWasm (Predicate.evaluate sha256))
    (wasm : Bytes → Bytes → Except String ProgramInstance)
    (hwasm : InlinesWasm C wasm) (committed : Transaction) (index : UInt32)
    (program : ProgramInstance)
    (hinstance : instanceFor sha256 wasm templatehashWasm committed index
      = .ok program)
    (hsized : Sized committed.output) (registry : List WasmEvaluator)
    (input : SigningInput) (witness : Bytes) (message : Hash)
    (hfree : CollisionFree sha256 (hashed sha256 committed index ++
      hashed sha256 input.psbt.unsignedTx (UInt32.ofNat input.inputIndex))) :
    (authorize C registry program input witness message = .ok () →
      Presented C input message ∧ witness = [] ∧
        Reproduces committed index input) ∧
    (Finishes compiled → Runnable C .v1 templatehashWasm →
      (authorize C registry program input witness message = .ok () ↔
        Presented C input message ∧ witness = [] ∧
          Reproduces committed index input)) := by
  obtain ⟨hinline, hprogram, hparameters⟩ :=
    hwasm _ _ _ (outside_ok hinstance)
  have hsound : authorize C registry program input witness message = .ok () →
      Presented C input message ∧ witness = [] ∧
        Reproduces committed index input := by
    intro h
    obtain ⟨hpresented, heval⟩ := (authorize_inline_iff hinline).mp h
    rw [hprogram, hparameters] at heval
    obtain ⟨view, arena, hview, -, hused, hanswer⟩ :=
      compiled.evaluate_ok hgrow heval
    obtain ⟨-, hwitness⟩ := evaluate_some hanswer
    have hempty : witness = [] := hwitness
    subst hempty
    exact ⟨hpresented, rfl,
      (evaluate_iff_reproduces hsized hfree hview hused).mp hanswer⟩
  refine ⟨hsound, ?_⟩
  intro finishes hrunnable
  refine ⟨hsound, ?_⟩
  rintro ⟨hpresented, rfl, hreproduces⟩
  obtain ⟨view, hview, -⟩ := hreproduces.room
  have hlimits : WithinLimits [] (templateHash sha256 committed index).toList
      view [] := by
    refine ⟨Nat.zero_le _, ?_, length_le_of_encodeView hview, Nat.zero_le _⟩
    rw [Vector.length_toList]
    decide
  obtain ⟨arena, hused, heval⟩ :=
    Compiles.evaluate_eq hgrow finishes hrunnable hview hlimits
  have hanswer := (evaluate_iff_reproduces hsized hfree hview hused).mpr
    hreproduces
  refine (authorize_inline_iff hinline).mpr ⟨hpresented, ?_⟩
  rw [hprogram, hparameters, heval, hanswer]
  rfl

def templateBase : Crates symbolicTypes :=
  { symbolicCrates with sighash := fun _ => .ok (hashOf 1) }

/-- The program of the one-input transaction's own template signs it. -/
theorem authorize_template_iff_oneInputSpend :
    authorize (wordCrates templateBase (Predicate.evaluate checksum)) []
      ⟨hashOf 1, wordModule,
        (templateHash checksum oneInputSpend.psbt.unsignedTx 0).toList⟩
      oneInputSpend [] (hashOf 1) = .ok () := by
  have hfree : CollisionFree checksum
      (hashed checksum oneInputSpend.psbt.unsignedTx 0 ++
        hashed checksum oneInputSpend.psbt.unsignedTx
          (UInt32.ofNat oneInputSpend.inputIndex)) := by
    unfold CollisionFree
    decide +kernel
  obtain ⟨view, hview, hfits⟩ : ∃ view,
      encodeView .v1 oneInputSpend = .ok view ∧ Fits oneInputSpend view :=
    ⟨_, rfl, by unfold Fits; decide⟩
  refine ((authorize_template_iff _ (wordCrates_neverShrinks templateBase _)
    checksum (wordCompiles templateBase (Predicate.evaluate checksum) .v1
      wordModule) (fun module parameters => .ok ⟨hashOf 1, module, parameters⟩)
    ?_ oneInputSpend.psbt.unsignedTx 0 _ rfl ?_ [] oneInputSpend [] (hashOf 1)
    hfree).2 (wordCompiles_finishes templateBase _ .v1 wordModule)
    (wordCrates_runnable _ .v1 rfl)).mpr
    ⟨⟨rfl, rfl, rfl⟩, rfl, ⟨rfl, rfl, rfl, rfl⟩, rfl, by decide, view, hview,
      hfits⟩
  · intro module parameters program h
    injection h with h
    subst h
    exact ⟨rfl, rfl, rfl⟩
  · unfold Sized
    decide

end Predicate

end SapioTee
