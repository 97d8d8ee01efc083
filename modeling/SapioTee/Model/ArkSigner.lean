import SapioTee.Lib.Table
import SapioTee.Lib.Trace
import SapioTee.Model.Evaluator
import SapioTee.Model.NativePolicy

/-!
# One-use nested signing sessions (`src/ark_signer.rs`)

The three operations are cut where the mutex cuts them. `prepare` is its
authorization (which reads no shared state), its clock reading, and one
critical section; `finish` is one removal under the lock and then the work
on what it removed; `cancel` is one removal. Each piece is a function here,
and `signer` is the machine that interleaves them: any number of calls, any
requests, the clock moving between any two pieces.

What the environment decides is in the action: how far the clock moved,
what entropy `Nonce::new` was given, which ids the generator drew. The
drawing loop of `prepare` repeats until an id is free, so a reservation is a
step only if the draws given to it contain one; otherwise the call is still
in its loop.

A secret nonce is an object the source can neither copy nor clone. Its
identity is the call that created it (`serial`), kept beside its value: two
nonces may carry equal secrets, they are still two nonces.

The lock's poison flag is in the state because the source tests it. Only a
panic inside a critical section would set it, and none of the code under the
lock panics, so no step here does.
-/

namespace SapioTee

open Lib

/-- A reading of the monotonic clock, in nanoseconds. -/
abbrev Instant := Nat

def maxPendingSessions : Nat := 256
def sessionLifetimeSecs : Nat := 120
def maxSessionsPerUser : Nat := 8

/-- `Duration::from_secs(SESSION_LIFETIME_SECS)`. -/
def sessionLifetime : Nat := sessionLifetimeSecs * 1000000000

structure Nonce (T : Types) where
  serial : Nat
  secret : T.SecretNonce

structure Pending (T : Types) where
  programId : Hash
  intent : Intent T
  userNonce : T.MemberNonce
  nonce : Nonce T
  expires : Instant

/-- The wallet a session counts against: the first member of its intent. -/
def Pending.user {T : Types} (p : Pending T) : T.PublicKey := p.intent.members[0]

structure ArkSigner (T : Types) where
  root : T.Xpriv
  publicRoot : T.Xpub
  evaluators : List WasmEvaluator

abbrev Sessions (T : Types) := Table Hash (Pending T)

/-- `Mutex<HashMap<..>>`, and whether a panic poisoned it. -/
structure Lock (T : Types) where
  data : Sessions T
  poisoned : Bool

/-- What a prepare that passed every check goes on with. -/
structure Grant (T : Types) where
  intent : Intent T
  userNonce : T.MemberNonce
  program : ProgramInstance

section

variable {T : Types} (C : Crates T)

/-- `evaluators` is the answer of `crate::deployment::evaluators()`. -/
def ArkSigner.new (evaluators : Except Error (List WasmEvaluator))
    (root : T.Xpriv) : Except Error (ArkSigner T) :=
  if C.depth root > C.maxProgramRootDepth then
    .error (.program (.rootDepth (C.depth root)))
  else do
    let registry ← evaluators
    pure ⟨root, C.fromPriv root, registry⟩

variable (self : ArkSigner T)

/-! ## `prepare` -/

/-- The two kinds of action: a spend is evaluated, an ownership proof is
checked against the program's policy and its own message. -/
def authorizeAction (key : ProgramKey T) (grant : Grant T)
    (policy : Option (NativePolicy T)) : SigningAction T → Except Error Unit
  | .spend spend => do
      let input ← outside (C.signingInput spend key)
      authorize C self.evaluators grant.program input spend.witness
        grant.intent.message
  | .ownership ownership => do
      match policy with
      | some policy => policy.enforce ownership.proof
      | none => pure ()
      let message ← outside (C.ownershipMessage ownership key)
      ensure (message == grant.intent.message)
        "ownership request differs from the nested signing intent"

/-- A policy envelope needs an inline program to tolerate it. -/
def checkPolicyProgram (program : ProgramInstance)
    (policy : Option (NativePolicy T)) : Except Error Unit :=
  if policy.isSome ∧ (C.inlineWasmVersion program.evaluator).isNone then
    .error (.message "native ownership policy requires an inline WASM program")
  else .ok ()

/-- Everything `prepare` does before it reads the clock. -/
def prepareAuthorize (request : PrepareRequest T) : Except Error (Grant T) := do
  ensure (request.protocol == signingProtocol) "unsupported signing protocol"
  ensure (request.key.root == self.publicRoot) "wrong attested program root"
  let intent ← outside (C.intent request.action request.key)
  let parsed ← outside (C.parseNonce request.userNonce)
  let userNonce ← outside (C.memberNonceFromBytes intent request.key.userPubkey
    (C.serializeNonce parsed))
  let program ← C.programInstance request.key.program.evaluator
    request.key.program.program request.key.program.parameters
  ensure (C.instanceId program == C.programId request.key.program)
    "program identity encoding mismatch"
  let derived ← outside (C.derivePublicKey program request.key.root)
  ensure (C.evenPublicKey derived == intent.members[1])
    "program public-key derivation mismatch"
  let policy ← NativePolicy.parse C program.parameters
  checkPolicyProgram C program policy
  authorizeAction C self request.key ⟨intent, userNonce, program⟩ policy
    request.action
  pure ⟨intent, userNonce, program⟩

def capacityExceeded : Error := .message "signer session capacity exceeded"

def walletCapacityExceeded : Error :=
  .message "per-wallet session capacity exceeded"

/-- `pending.retain(|_, session| session.expires > now)`. -/
def prune (now : Instant) (pending : Sessions T) : Sessions T :=
  pending.retain fun session => decide (now < session.expires)

def heldByUser (user : T.PublicKey) (pending : Sessions T) : Nat :=
  pending.count fun session => session.user == user

/-- The drawing loop: the first drawn id that is not in the map. -/
def drawSession (pending : Sessions T) (draws : List Hash) : Option Hash :=
  draws.find? fun id => decide (id ∉ pending)

/-- The critical section of `prepare`, on a lock that is not poisoned.
`none` is a loop that has not drawn a free id yet. -/
def prepareReserve (call : Nat) (grant : Grant T) (now : Instant)
    (entropy : T.Entropy) (draws : List Hash) (pending : Sessions T) :
    Option (Except Error (PrepareResponse × Pending T) × Sessions T) :=
  let pending := prune now pending
  if maxPendingSessions ≤ pending.size then
    some (.error capacityExceeded, pending)
  else if maxSessionsPerUser ≤ heldByUser grant.intent.members[0] pending then
    some (.error walletCapacityExceeded, pending)
  else
    match C.nonceNew grant.intent grant.intent.members[1] entropy with
    | .error text => some (.error (.upstream text), pending)
    | .ok secret =>
        match drawSession pending draws with
        | none => none
        | some session =>
            let entry : Pending T :=
              { programId := C.instanceId grant.program
                intent := grant.intent
                userNonce := grant.userNonce
                nonce := ⟨call, secret⟩
                expires := now + sessionLifetime }
            let response : PrepareResponse :=
              { protocol := signingProtocol
                session := session
                programNonce := hexEncode
                  (C.serializeMemberNonce (C.noncePublic secret)) }
            some (.ok (response, entry), pending.insert session entry)

/-! ## `finish` and `cancel` -/

def stateUnavailable : Error := .message "signer state unavailable"

def unknownSession : Error :=
  .message "unknown, expired or consumed signing session"

/-- The two checks `finish` makes first on what it removed. -/
def finishGates (request : FinishRequest) (entry : Pending T)
    (now : Instant) : Except Error Unit := do
  ensure (request.protocol == signingProtocol) "unsupported signing protocol"
  ensure (decide (now < entry.expires)) "signing session expired"

/-- `request.server_nonce.as_deref().map(parse).transpose()?`. -/
def parseOptional {α : Type} (parse : String → Except String α) :
    Option String → Except Error (Option α)
  | none => .ok none
  | some text => do
      let x ← outside (parse text)
      pure (some x)

def checkServerShare (entry : Pending T)
    (share : Option T.PartialSignature) : Except Error Unit :=
  if entry.intent.server.isNone ∧ share.isSome then
    .error (.message "server share supplied for a joint-key-only signature")
  else .ok ()

def verifyShare (session : T.Session) :
    Option T.PartialSignature → Except Error Unit
  | some share => outside (C.verifyServer session share)
  | none => .ok ()

/-- The key `finish` signs with: derived from the root along the stored
program id, then normalized by the zero x-only tweak. -/
def finishKeypair (entry : Pending T) : Except Error T.Keypair := do
  let derived ← outside
    (C.derivePriv self.root (C.programDerivationPath entry.programId))
  outside (C.addXonlyTweak (C.toKeypair derived) 0)

/-- Everything `finish` does on the removed entry before it signs. -/
def finishSession (request : FinishRequest) (entry : Pending T)
    (now : Instant) : Except Error (T.Session × T.Keypair) := do
  finishGates request entry now
  let serverNonce ← parseOptional C.parseNonce request.serverNonce
  let serverShare ← parseOptional C.parsePartial request.serverPartial
  checkServerShare entry serverShare
  let session ← outside (C.sessionNew entry.intent entry.userNonce
    (C.noncePublic entry.nonce.secret) serverNonce)
  verifyShare C session serverShare
  let keypair ← finishKeypair C self entry
  pure (session, keypair)

/-- `pending.nonce.sign(&keypair, &session)` and the response made of it. -/
def finishRespond (entry : Pending T) (session : T.Session)
    (keypair : T.Keypair) : Except Error FinishResponse := do
  let share ← outside (C.nonceSign entry.nonce.secret keypair session)
  pure ⟨signingProtocol, hexEncode (C.serializePartial share)⟩

/-- `cancel` after its removal. -/
def cancelResult (request : CancelRequest) (removed : Option (Pending T)) :
    Except Error Unit := do
  ensure (request.protocol == signingProtocol) "unsupported signing protocol"
  ensure removed.isSome "unknown, expired or consumed signing session"

end

/-! ## The machine -/

/-- What one call is doing between its steps. -/
inductive Call (T : Types) where
  | idle
  | authorized (request : PrepareRequest T) (grant : Grant T)
  | timed (request : PrepareRequest T) (grant : Grant T) (now : Instant)
  | holding (request : FinishRequest) (entry : Pending T)
  | returned

structure World (T : Types) where
  clock : Instant
  pending : Lock T
  calls : Nat → Call T
  /-- The number of the next call. -/
  next : Nat

inductive Act (T : Types) where
  | tick (nanos : Nat)
  | prepare (request : PrepareRequest T)
  | readClock (call : Nat)
  | reserve (call : Nat) (entropy : T.Entropy) (draws : List Hash)
  | finish (request : FinishRequest)
  | sign (call : Nat)
  | cancel (request : CancelRequest)

inductive Event (T : Types) where
  | refused (call : Nat) (request : PrepareRequest T) (error : Error)
  | prepared (call : Nat) (request : PrepareRequest T) (now : Instant)
      (response : PrepareResponse) (entry : Pending T)
  | took (call : Nat) (session : Hash) (found : Option (Pending T))
  | signed (call : Nat) (nonce : Nonce T) (keypair : T.Keypair)
      (session : T.Session)
  | finished (call : Nat) (request : FinishRequest)
      (result : Except Error FinishResponse)
  | cancelled (call : Nat) (request : CancelRequest)
      (result : Except Error Unit)

namespace World

variable {T : Types}

def start : World T := ⟨0, ⟨∅, false⟩, fun _ => .idle, 0⟩

def setCall (w : World T) (call : Nat) (c : Call T) : World T :=
  { w with calls := Function.update w.calls call c }

def setPending (w : World T) (pending : Sessions T) : World T :=
  { w with pending := { w.pending with data := pending } }

/-- Start a call: it gets the next number. -/
def enter (w : World T) (c : Call T) : World T :=
  { w.setCall w.next c with next := w.next + 1 }

variable (C : Crates T) (self : ArkSigner T)

def stepPrepare (w : World T) (request : PrepareRequest T) :
    World T × List (Event T) :=
  match prepareAuthorize C self request with
  | .error error => (w.enter .returned, [.refused w.next request error])
  | .ok grant => (w.enter (.authorized request grant), [])

def stepReadClock (w : World T) (call : Nat) : World T × List (Event T) :=
  match w.calls call with
  | .authorized request grant =>
      (w.setCall call (.timed request grant w.clock), [])
  | _ => (w, [])

def stepReserve (w : World T) (call : Nat) (entropy : T.Entropy)
    (draws : List Hash) : World T × List (Event T) :=
  match w.calls call with
  | .timed request grant now =>
      if w.pending.poisoned then
        (w.setCall call .returned, [.refused call request stateUnavailable])
      else
        match prepareReserve C call grant now entropy draws w.pending.data with
        | none => (w, [])
        | some (.error error, pending) =>
            ((w.setPending pending).setCall call .returned,
              [.refused call request error])
        | some (.ok (response, entry), pending) =>
            ((w.setPending pending).setCall call .returned,
              [.prepared call request now response entry])
  | _ => (w, [])

def stepFinish (w : World T) (request : FinishRequest) :
    World T × List (Event T) :=
  if w.pending.poisoned then
    (w.enter .returned, [.finished w.next request (.error stateUnavailable)])
  else
    let found := w.pending.data.lookup request.session
    let w' := w.setPending (w.pending.data.erase request.session)
    match found with
    | none =>
        (w'.enter .returned, [.took w.next request.session none,
          .finished w.next request (.error unknownSession)])
    | some entry =>
        (w'.enter (.holding request entry),
          [.took w.next request.session (some entry)])

def stepSign (w : World T) (call : Nat) : World T × List (Event T) :=
  match w.calls call with
  | .holding request entry =>
      match finishSession C self request entry w.clock with
      | .error error =>
          (w.setCall call .returned, [.finished call request (.error error)])
      | .ok (session, keypair) =>
          (w.setCall call .returned,
            [.signed call entry.nonce keypair session,
              .finished call request (finishRespond C entry session keypair)])
  | _ => (w, [])

def stepCancel (w : World T) (request : CancelRequest) :
    World T × List (Event T) :=
  if w.pending.poisoned then
    (w.enter .returned, [.cancelled w.next request (.error stateUnavailable)])
  else
    let found := w.pending.data.lookup request.session
    ((w.setPending (w.pending.data.erase request.session)).enter .returned,
      [.took w.next request.session found,
        .cancelled w.next request (cancelResult request found)])

def step (w : World T) : Act T → World T × List (Event T)
  | .tick nanos => ({ w with clock := w.clock + nanos }, [])
  | .prepare request => w.stepPrepare C self request
  | .readClock call => w.stepReadClock call
  | .reserve call entropy draws => w.stepReserve C call entropy draws
  | .finish request => w.stepFinish request
  | .sign call => w.stepSign C self call
  | .cancel request => w.stepCancel request

end World

/-- One signer, from its construction, under any interleaving of calls. -/
def signer {T : Types} (C : Crates T) (self : ArkSigner T) :
    Machine (World T) (Act T) (Event T) :=
  ⟨World.start, World.step C self⟩

end SapioTee
