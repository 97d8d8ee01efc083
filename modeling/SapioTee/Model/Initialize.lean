import SapioTee.Model.Verifier

/-!
# The initializer and the enclave it waits for (`deploy/initialize.py`)

`initialize` asks for the public key, posts the settings while there is none,
and asks for the health of the enclave once it has an identity. It waits for
one response at a time, so its state is the place in its loop and
`last_status`. Below it stands the whole process of `app`: the handlers of
other clients, the signer thread and KMS move on while it waits.

Between the two are the router, which may shed a request or run into its
deadline, and a network, which may fail in every way `urllib` knows. Neither
invents a response. The alarm that bounds the whole loop may go off
anywhere.

`json.dumps` on the settings and the extractor that reads them back are one
function, `extract`: the extractor may refuse, and otherwise reads the record
it was sent.
-/

namespace SapioTee

open Lib

namespace App

/-- `GET /health`. -/
def World.health {T : Types} {E : Enclave T} (w : World E) :
    Except ApiError String :=
  if w.identity.isSome then .ok "ready" else .error (503, "not initialized")

end App

namespace Initialize

/-- What the two programs run of others, and the text of the timeout. -/
structure ClientCrates where
  /-- How `json.loads` reads bytes. -/
  decode : Bytes → Option String
  /-- `decode("utf-8", errors="replace")`. -/
  replaced : Bytes → String
  /-- `Json<Settings>` on what was dumped. -/
  extract : Json → Except App.ApiError Settings
  /-- A rejection is a client error. -/
  extract_status : ∀ {record : Json} {status : Nat} {text : String},
    extract record = .error (status, text) → 400 ≤ status
  /-- `f"{timeout:g}"`. -/
  timeout : String

def maxResponse : Nat := 65536

/-- An exception below `request`, as the loop tells them apart: a `URLError`
by its reason, a connection or timeout error of its own, and the rest, which
nothing here catches. -/
inductive Failure where
  | tls (reason : String)
  | waiting (reason : String)
  | connection (reason : String)
  | broken (error : String)
  | other (error : String)

/-- Where the loop is: at its top, in one of its three requests, in its
`sleep`, or left. -/
inductive Place where
  | top
  | publicKey
  | setup
  | health (identity : Json)
  | asleep
  | returned (identity : Json)
  | failed (error : Error)

structure Client where
  place : Place
  lastStatus : String

variable {T : Types} (V : VerifierCrates T) (I : ClientCrates) (settings : Json)

def validateBody (body : Bytes) : Except Error Json :=
  match I.decode body with
  | none => .error (.upstream "UnicodeDecodeError")
  | some text => validateIdentity V text settings

def unexpected (path : String) (status : Nat) (body : Bytes) : Error :=
  .message (path ++ " returned HTTP " ++ toString status ++ ": " ++
    I.replaced (body.take 512))

namespace Client

def start : Client := ⟨.top, "service has not responded"⟩

def fail (c : Client) (error : Error) : Client :=
  { c with place := .failed error }

/-- The end of a round without an identity, or without a healthy one. -/
def retry (status : String) : Client := ⟨.asleep, status⟩

/-- The identity of a response goes on to the health check. -/
def check (c : Client) (body : Bytes) : Client :=
  match validateBody V I settings body with
  | .error error => c.fail error
  | .ok identity => { c with place := .health identity }

def onPublicKey (c : Client) (status : Nat) (body : Bytes) : Client :=
  if status = 200 then c.check V I settings body
  else if status = 503 then { c with place := .setup }
  else c.fail (unexpected I "/public-key" status body)

def onSetup (c : Client) (status : Nat) (body : Bytes) : Client :=
  if status = 200 then c.check V I settings body
  else if status = 408 ∨ status = 409 ∨ status = 502 then
    retry ("/setup returned HTTP " ++ toString status)
  else c.fail (unexpected I "/setup" status body)

def onHealth (c : Client) (identity : Json) (status : Nat) (body : Bytes) :
    Client :=
  if status = 200 then { c with place := .returned identity }
  else if status ≠ 503 then c.fail (unexpected I "/health" status body)
  else retry "/health is not ready (HTTP 503)"

/-- `request` reads the body first and looks at its length. -/
def bounded (c : Client) (path : String) (body : Bytes) (next : Client) :
    Client :=
  if body.length ≤ maxResponse then next
  else c.fail (.message (path ++ " response exceeds 64 KiB"))

def receive (c : Client) (status : Nat) (body : Bytes) : Client :=
  match c.place with
  | .publicKey => c.bounded "/public-key" body
      (c.onPublicKey V I settings status body)
  | .setup => c.bounded "/setup" body (c.onSetup V I settings status body)
  | .health identity => c.bounded "/health" body
      (c.onHealth I identity status body)
  | _ => c

/-- The `except` clauses of the loop. -/
def lose (c : Client) : Failure → Client
  | .tls reason => c.fail (.message ("TLS failure: " ++ reason))
  | .connection reason =>
      c.fail (.message ("HTTP connection failed: " ++ reason))
  | .waiting reason => retry ("waiting for connection: " ++ reason)
  | .broken error => retry ("waiting for connection: " ++ error)
  | .other error => c.fail (.upstream error)

/-- `except DeadlineExpired`. -/
def expire (c : Client) : Client :=
  c.fail (.message ("timed out after " ++ I.timeout ++ " seconds: " ++
    c.lastStatus))

/-- It waits for a response. -/
def waits (c : Client) : Bool :=
  match c.place with
  | .publicKey | .setup | .health _ => true
  | _ => false

/-- It has left the loop. -/
def left (c : Client) : Bool :=
  match c.place with
  | .returned _ | .failed _ => true
  | _ => false

end Client

/-! ## Both ends -/

/-- What has become of the request the client waits for: nothing is sent, it
is on its way, a setup handler runs for it, or the answer is on its way
back. -/
inductive Exchange where
  | idle
  | sent
  | running (request : Nat)
  | answered (status : Nat) (body : Bytes)

structure World (E : App.Enclave T) where
  app : App.World E
  client : Client
  exchange : Exchange

inductive Act where
  /-- A step of the process, for this client or for any other. -/
  | app (a : App.Act)
  | begin
  | serve
  /-- The request finds no room, or its body is not there in time. -/
  | shed
  | stall
  | receive
  | lose (failure : Failure)
  | wake
  | expire

/-- A reply as it leaves the router. -/
def answerOf : Except App.ApiError String → Exchange
  | .ok text => .answered 200 (utf8 text)
  | .error (status, text) => .answered status (utf8 text)

def deadlineReply : Except App.ApiError String :=
  .error (408, "request deadline exceeded")

def capacityReply : Except App.ApiError String :=
  .error (503, "API capacity exceeded")

/-- What these events say to the client of one setup request. The handler of
a client that still waits is dropped at the deadline only. -/
def replyTo {E : App.Enclave T} (request : Nat) :
    List (App.Event E) → Option (Except App.ApiError String)
  | [] => none
  | .answered k reply :: es =>
      if k = request then some reply else replyTo request es
  | .dropped k :: es =>
      if k = request then some deadlineReply else replyTo request es
  | _ :: es => replyTo request es

/-- The exchange of a setup request after these events. -/
def follow {E : App.Enclave T} (request : Nat) (es : List (App.Event E)) :
    Exchange :=
  match replyTo request es with
  | some reply => answerOf reply
  | none => .running request

namespace World

variable {E : App.Enclave T}

def start : World E := ⟨App.World.start, Client.start, .idle⟩

/-- What the client does next is in its place; if that is a request, it is
sent. -/
def turn (w : World E) (c : Client) : World E :=
  { w with client := c, exchange := if c.waits then .sent else .idle }

def stepApp (w : World E) (a : App.Act) : World E × List (App.Event E) :=
  ({ w with
      app := (w.app.step a).1
      exchange := match w.exchange with
        | .running request => follow request (w.app.step a).2
        | exchange => exchange },
    (w.app.step a).2)

def stepBegin (w : World E) : World E :=
  match w.client.place with
  | .top => w.turn { w.client with place := .publicKey }
  | _ => w

/-- `POST /setup`: the extractor, then the handler's first step. -/
def serveSetup (w : World E) : World E × List (App.Event E) :=
  match I.extract settings with
  | .error error => ({ w with exchange := answerOf (.error error) }, [])
  | .ok parsed =>
      ({ w with
          app := (w.app.stepSetup parsed).1
          exchange := follow w.app.next (w.app.stepSetup parsed).2 },
        (w.app.stepSetup parsed).2)

/-- A handler takes the request; two of the three await nothing. -/
def stepServe (w : World E) : World E × List (App.Event E) :=
  match w.exchange, w.client.place with
  | .sent, .publicKey => ({ w with exchange := answerOf w.app.publicKey }, [])
  | .sent, .health _ => ({ w with exchange := answerOf w.app.health }, [])
  | .sent, .setup => w.serveSetup I settings
  | _, _ => (w, [])

def stepShed (w : World E) : World E :=
  match w.exchange with
  | .sent => { w with exchange := answerOf capacityReply }
  | _ => w

/-- Only the setup request has a body. -/
def stepStall (w : World E) : World E :=
  match w.exchange, w.client.place with
  | .sent, .setup => { w with exchange := answerOf deadlineReply }
  | _, _ => w

def stepReceive (w : World E) : World E :=
  match w.exchange with
  | .answered status body =>
      w.turn (w.client.receive V I settings status body)
  | _ => w

/-- The client no longer waits; a handler that runs for it goes on, or is
dropped. -/
def stepLose (w : World E) (failure : Failure) : World E :=
  if w.client.waits then w.turn (w.client.lose failure) else w

def stepWake (w : World E) : World E :=
  match w.client.place with
  | .asleep => w.turn { w.client with place := .top }
  | _ => w

def stepExpire (w : World E) : World E :=
  if w.client.left then w else w.turn (w.client.expire I)

def step (w : World E) : Act → World E × List (App.Event E)
  | .app a => w.stepApp a
  | .begin => (w.stepBegin, [])
  | .serve => w.stepServe I settings
  | .shed => (w.stepShed, [])
  | .stall => (w.stepStall, [])
  | .receive => (w.stepReceive V I settings, [])
  | .lose failure => (w.stepLose failure, [])
  | .wake => (w.stepWake, [])
  | .expire => (w.stepExpire I, [])

end World

/-- `initialize(settings, url, timeout)` against a process that has just
started. -/
def initializer (E : App.Enclave T) :
    Machine (World E) Act (App.Event E) :=
  ⟨World.start, World.step V I settings⟩

end Initialize

end SapioTee
