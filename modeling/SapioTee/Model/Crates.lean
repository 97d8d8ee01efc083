import SapioTee.Model.Transaction

/-!
# The protocol's data and the code outside this repository

The signer is written against other crates: the Ark protocol and its nested
MuSig sessions, Sapio's program instances, rust-bitcoin's key derivation,
serde and the WASM engine. None of that code is here to read, so it is a
parameter: `Types` collects the types it exports, `Crates` the functions the
signer calls. Nothing is assumed of them beyond their signatures; a theorem
that needs more says so in its hypotheses.

The records and enumerations the signer itself takes apart (requests,
ownership proofs, intents, program instances) are spelled out with the
fields it reads. `Error` is the one error type: a text written in this
repository, one of Sapio's typed program errors, whatever an outside
function answered, or a panic, which the release profile turns into an
abort of the process.
-/

namespace SapioTee

open Lib

inductive ProgramError where
  | rootDepth (depth : Nat)
  | psbt (text : String)
  | finalizedInput
  | unknownEvaluator (id : Hash)
  | evaluation (text : String)
  | rejected
  deriving DecidableEq

inductive Error where
  | message (text : String)
  | program (error : ProgramError)
  | upstream (text : String)
  | panic (text : String)
  deriving DecidableEq

/-- `ensure!`. -/
def ensure (condition : Bool) (text : String) : Except Error Unit :=
  if condition then .ok () else .error (.message text)

theorem ensure_ok {c : Bool} {text : String} {u : Unit}
    (h : ensure c text = .ok u) : c = true := by
  cases c with
  | true => rfl
  | false => cases h

/-- `?` on an outside function's result. -/
def outside {α : Type} : Except String α → Except Error α
  | .ok x => .ok x
  | .error text => .error (.upstream text)

theorem outside_ok {α : Type} {x : Except String α} {a : α}
    (h : outside x = .ok a) : x = .ok a := by
  cases x with
  | ok b => injection h with h; rw [h]
  | error text => cases h

/-- The one inversion every chain of `?` needs. -/
theorem bind_ok {ε α β : Type} {x : Except ε α} {f : α → Except ε β} {b : β}
    (h : x >>= f = .ok b) : ∃ a, x = .ok a ∧ f a = .ok b := by
  cases x with
  | error e => cases h
  | ok a => exact ⟨a, rfl, h⟩

theorem ok_bind {ε α β : Type} (a : α) (f : α → Except ε β) :
    (Except.ok a >>= f) = f a := rfl

theorem bind_error {ε α β : Type} {x : Except ε α} {f : α → Except ε β}
    {e : ε} (h : x >>= f = .error e) :
    x = .error e ∨ ∃ a, x = .ok a ∧ f a = .error e := by
  cases x with
  | error e' =>
      injection h with h
      exact .inl (congrArg Except.error h)
  | ok a => exact .inr ⟨a, rfl, h⟩

/-- The rule for a loop of checks. -/
theorem forM_ok_iff {α : Type} {check : α → Except Error Unit}
    {xs : List α} : xs.forM check = .ok () ↔ ∀ x ∈ xs, check x = .ok () := by
  induction xs with
  | nil =>
      refine ⟨?_, fun _ => rfl⟩
      intro _ x hx
      cases hx
  | cons x xs ih =>
      show (check x >>= fun _ => xs.forM check) = .ok () ↔ _
      refine ⟨?_, ?_⟩
      · intro h
        obtain ⟨_, hx, h⟩ := bind_ok h
        intro y hy
        rcases List.mem_cons.mp hy with rfl | hy
        · exact hx
        · exact ih.mp h y hy
      · intro h
        rw [h x List.mem_cons_self, ok_bind]
        exact ih.mpr fun y hy => h y (List.mem_cons_of_mem _ hy)

/-- Every error of a computation is a text. -/
def Describes {α : Type} (x : Except Error α) : Prop :=
  ∀ error, x = .error error → ∃ text, error = .message text

theorem Describes.bind {α β : Type} {x : Except Error α}
    {f : α → Except Error β} (hx : Describes x) (hf : ∀ a, Describes (f a)) :
    Describes (x >>= f) := by
  intro error h
  rcases bind_error h with hfail | ⟨a, -, hfail⟩
  · exact hx error hfail
  · exact hf a error hfail

theorem describes_pure {α : Type} (a : α) : Describes (.ok a) := by
  intro error h
  cases h

theorem Describes.mapM {α β : Type} {f : α → Except Error β}
    (hf : ∀ a, Describes (f a)) (as : List α) : Describes (as.mapM f) := by
  induction as with
  | nil => exact describes_pure []
  | cons a as ih =>
      rw [List.mapM_cons]
      exact (hf a).bind fun b => ih.bind fun bs => describes_pure (b :: bs)

theorem Describes.foldlM {α β : Type} {f : β → α → Except Error β}
    (hf : ∀ b a, Describes (f b a)) (as : List α) (b : β) :
    Describes (as.foldlM f b) := by
  induction as generalizing b with
  | nil => exact describes_pure b
  | cons a as ih =>
      rw [List.foldlM_cons]
      exact (hf b a).bind fun c => ih c

theorem describes_ensure (condition : Bool) (text : String) :
    Describes (ensure condition text) := by
  intro error h
  cases condition with
  | true => cases h
  | false =>
      injection h with h
      exact ⟨text, h.symm⟩

inductive WasmVersion where
  | v1
  | v2
  deriving DecidableEq

structure Types where
  Xpriv : Type
  Xpub : Type
  DerivationPath : Type
  PublicKey : Type
  XOnlyPublicKey : Type
  Keypair : Type
  Tweak : Type
  VtxoPolicy : Type
  Vtxo : Type
  VtxoId : Type
  LightningReceive : Type
  SpendBody : Type
  PublicNonce : Type
  MemberNonce : Type
  SecretNonce : Type
  Entropy : Type
  PartialSignature : Type
  Session : Type
  Guest : Type
  [decXpub : DecidableEq Xpub]
  [decPublicKey : DecidableEq PublicKey]
  [decVtxoPolicy : DecidableEq VtxoPolicy]

attribute [instance] Types.decXpub Types.decPublicKey Types.decVtxoPolicy

variable (T : Types)

/-! ## Ownership proofs -/

structure VtxoRequest where
  amount : UInt64
  policy : T.VtxoPolicy

structure SignedVtxoRequest where
  vtxo : VtxoRequest T
  cosignPubkey : T.PublicKey
  nonces : List T.PublicNonce

structure OffboardRequest where
  scriptPubkey : Script
  netAmount : UInt64
  deductFeesFromGrossAmount : Bool
  feeRate : UInt64

inductive OwnershipProof where
  | status
  | arkoor (outputs : List (VtxoRequest T))
  | round (challenge : Hash) (outputs : List (SignedVtxoRequest T))
  | delegatedRound (outputs : List (VtxoRequest T))
  | offboard (request : OffboardRequest) (inputs : List T.VtxoId)
  | lightningReceive (receive : T.LightningReceive)

structure OwnershipRequest where
  input : T.Vtxo
  proof : OwnershipProof T

/-! ## Programs, keys and signing requests -/

structure Program where
  evaluator : Hash
  program : Bytes
  parameters : Bytes

structure ProgramKey where
  program : Program
  root : T.Xpub
  userPubkey : T.PublicKey

structure SpendRequest where
  body : T.SpendBody
  witness : Bytes

inductive SigningAction where
  | spend (request : SpendRequest T)
  | ownership (request : OwnershipRequest T)

structure Intent where
  members : Vector T.PublicKey 2
  server : Option T.PublicKey
  message : Hash
  tweak : Option T.Tweak

structure ProgramInstance where
  evaluator : Hash
  program : Bytes
  parameters : Bytes

structure PrepareRequest where
  protocol : String
  key : ProgramKey T
  action : SigningAction T
  userNonce : String

structure PrepareResponse where
  protocol : String
  session : Hash
  programNonce : String

structure FinishRequest where
  protocol : String
  session : Hash
  serverNonce : Option String
  serverPartial : Option String

structure FinishResponse where
  protocol : String
  programPartial : String

structure CancelRequest where
  protocol : String
  session : Hash

/-- `SIGNING_PROTOCOL`. -/
def signingProtocol : String := "sapio-ark/nested-signing/1"

/-! ## What the WASM parser and the policy document decode to -/

inductive ValType where
  | i32 | i64 | f32 | f64 | v128 | ref
  deriving DecidableEq

structure FuncType where
  params : List ValType
  results : List ValType

inductive TypeRef where
  | func (index : UInt32)
  | other

structure Import where
  module : String
  name : String
  ty : TypeRef

/-- `wasmparser::Payload`, the sections the budget check looks into. An
entry that failed to decode is an error in its place. -/
inductive Payload where
  | typeSection (types : List (Except String FuncType))
  | importSection (imports : List (Except String Import))
  | functionSection (functions : List (Except String UInt32))
  | codeSectionEntry (locals : Except String (List (Except String UInt32)))
  | startSection
  | other

structure Document where
  version : UInt8
  offboard : List String
  arkoor : List String
  round : List String
  delegatedRound : List String
  status : Bool
  lightningReceive : Bool

/-- An instantiated guest: its linear memory, and the rest of its state. -/
structure Store where
  memory : Bytes
  guest : T.Guest

structure Crates where
  -- Key derivation and program instances.
  maxProgramRootDepth : Nat
  depth : T.Xpriv → Nat
  fromPriv : T.Xpriv → T.Xpub
  derivePriv : T.Xpriv → T.DerivationPath → Except String T.Xpriv
  programDerivationPath : Hash → T.DerivationPath
  toKeypair : T.Xpriv → T.Keypair
  addXonlyTweak : T.Keypair → Nat → Except String T.Keypair
  programId : Program → Hash
  instanceId : ProgramInstance → Hash
  admitInstance : ProgramInstance → Except String Unit
  derivePublicKey : ProgramInstance → T.Xpub → Except String T.XOnlyPublicKey
  evenPublicKey : T.XOnlyPublicKey → T.PublicKey
  inlineWasmVersion : Hash → Option WasmVersion
  -- The signing protocol.
  intent : SigningAction T → ProgramKey T → Except String (Intent T)
  signingInput : SpendRequest T → ProgramKey T → Except String SigningInput
  ownershipMessage : OwnershipRequest T → ProgramKey T → Except String Hash
  sighash : SigningInput → Except String Hash
  validatePsbt : Psbt → Except String Unit
  annex : PsbtInput → Except String (Option Bytes)
  parseNonce : String → Except String T.PublicNonce
  serializeNonce : T.PublicNonce → Bytes
  parsePartial : String → Except String T.PartialSignature
  serializePartial : T.PartialSignature → Bytes
  -- Nested MuSig.
  memberNonceFromBytes :
    Intent T → T.PublicKey → Bytes → Except String T.MemberNonce
  serializeMemberNonce : T.MemberNonce → Bytes
  nonceNew : Intent T → T.PublicKey → T.Entropy → Except String T.SecretNonce
  noncePublic : T.SecretNonce → T.MemberNonce
  nonceSign :
    T.SecretNonce → T.Keypair → T.Session → Except String T.PartialSignature
  sessionNew : Intent T → T.MemberNonce → T.MemberNonce →
    Option T.PublicNonce → Except String T.Session
  verifyServer : T.Session → T.PartialSignature → Except String Unit
  -- Decoders of the policy document.
  documentFromSlice : Bytes → Except String Document
  scriptFromHex : String → Except String Script
  policyFromHex : String → Except String T.VtxoPolicy
  -- The WASM engine.
  parseAll : Bytes → List (Except String Payload)
  instantiate : WasmVersion → Bytes → Except String (Store T)
  allocate : Store T → Int32 → Except String Int32 × Store T
  evaluate : Store T → Vector Int32 8 → Except String Int32 × Store T
  exhausted : Store T → Bool

/-- `ProgramInstance::new`: the three parts, once they pass its checks. -/
def Crates.programInstance {T : Types} (C : Crates T) (evaluator : Hash)
    (program parameters : Bytes) : Except Error ProgramInstance := do
  outside (C.admitInstance ⟨evaluator, program, parameters⟩)
  pure ⟨evaluator, program, parameters⟩

/-- `hex::encode`. -/
def hexEncode (bytes : Bytes) : String :=
  String.ofList (bytes.flatMap fun b =>
    [Nat.digitChar (b.toNat / 16), Nat.digitChar (b.toNat % 16)])

end SapioTee
