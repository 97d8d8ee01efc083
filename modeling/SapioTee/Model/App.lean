import SapioTee.Lib.Trace
import SapioTee.Model.Deployment

/-!
# Setup, publication and the signer thread (`src/app.rs`)

`POST /setup` is a future: it runs from one await to the next, and wherever
it is suspended it may be dropped, by the request deadline or because the
client went away. `run` starts one thread for the TCP signer, which is
handed its oracle over a channel of one place and reports back over a
oneshot. Handlers and thread share the setup gate, the two `OnceLock`s, the
channel and the oneshots, and nothing else.

Every access to something shared is a step of its own, so the machine `app`
takes any interleaving the runtimes may produce: any number of requests, the
thread between any two of their accesses, a drop at every await. Gate,
channel, oneshot and `OnceLock` are atomic, as documented.

`tokio::time::timeout` polls the oneshot first and its clock second. When
the clock has run out the receiver still exists until `install` returns, so
giving up is two steps: `timeout` (the oneshot was empty, the clock was not)
and `giveUp` (the receiver is dropped).

Only the `local-dev` feature installs a root without a request; builds with
it are left out, and so is the process's end: once the thread is `exited`,
`run` returns and everything here is dropped.
-/

namespace SapioTee.App

open Lib

structure Identity (T : Types) where
  protocol : String
  mode : String
  xpub : T.Xpub
  settings : Option Settings
  signing : ProgramProfile

/-- What the program is linked against, and whether it opened the NSM. -/
structure Enclave (T : Types) where
  crates : Crates T
  keys : KeyCrates T
  oracles : OracleCrates T
  /-- `serde_json::to_string` on the identity. -/
  toJson : Identity T → Except String String
  nsm : Bool

/-- A status code and its text. -/
abbrev ApiError := Nat × String

section

variable {T : Types} (E : Enclave T)

/-- The identity `install` serializes. -/
def identityOf (oracle : E.oracles.ProgramOracle)
    (settings : Option Settings) : Identity T where
  protocol := identityProtocol
  mode := if E.nsm then "nitro" else "local-dev"
  xpub := E.oracles.oraclePublicRoot oracle
  settings := settings
  signing := programProfile E.oracles

/-- The locals of `install` when it hands over its job: all of them were
made from its two arguments. -/
structure Install where
  settings : Settings
  root : T.Xpriv
  oracle : E.oracles.ProgramOracle
  arkSigner : ArkSigner T
  identity : String
  oracle_eq : programOracle E.oracles root = .ok oracle
  arkSigner_eq :
    ArkSigner.new E.crates (evaluators E.oracles) root = .ok arkSigner
  identity_eq : E.toJson (identityOf E oracle (some settings)) = .ok identity

/-- `install` up to its channel. -/
def install (root : T.Xpriv) (settings : Settings) :
    Except Error (Install E) :=
  match ho : programOracle E.oracles root with
  | .error error => .error error
  | .ok oracle =>
      match ha : ArkSigner.new E.crates (evaluators E.oracles) root with
      | .error error => .error error
      | .ok arkSigner =>
          match hi : E.toJson (identityOf E oracle (some settings)) with
          | .error text => .error (.upstream text)
          | .ok identity =>
              .ok ⟨settings, root, oracle, arkSigner, identity, ho, ha, hi⟩

/-- The job carries the sending half of the oneshot its request made, named
by that request's number. -/
structure SignerJob where
  oracle : E.oracles.ProgramOracle
  ready : Nat

/-! ## The parties -/

/-- A oneshot: not made yet, empty, holding the message, or with one half
gone. -/
inductive Oneshot where
  | unmade
  | empty
  | sent (result : Except String Unit)
  | senderGone
  | receiverGone

def Oneshot.dropReceiver : Oneshot → Oneshot
  | .unmade => .unmade
  | _ => .receiverGone

def Oneshot.dropSender : Oneshot → Oneshot
  | .empty => .senderGone
  | o => o

/-- Where `install` is. -/
inductive Stage where
  | submitting
  | waiting
  | timedOut
  | bound
  | arkSet
  deriving DecidableEq

/-- A setup request between two steps. `deriving` and `waiting` are its
awaits. -/
inductive Handler where
  | absent
  | validated (settings : Settings)
  | locked (settings : Settings)
  | deriving (settings : Settings)
  | installing (stage : Stage) (locals : Install E)
  | published
  | done

/-- The signer thread. `failing` has an error to return and still owns the
channel; it and `exited` keep the job they had received, if any. -/
inductive Thread where
  | starting
  | receiving
  | binding (job : SignerJob E)
  | reporting (job : SignerJob E)
  | serving (job : SignerJob E)
  | failing (job : Option (SignerJob E))
  | exited (job : Option (SignerJob E))

/-- The job the thread received. -/
def Thread.job {E : Enclave T} : Thread E → Option (SignerJob E)
  | .starting | .receiving => none
  | .binding job | .reporting job | .serving job => some job
  | .failing job | .exited job => job

structure World where
  /-- `setup_gate`, with the request whose guard locks it. -/
  gate : Option Nat
  identity : Option String
  arkSigner : Option (ArkSigner T)
  /-- The one place of `work`. -/
  work : Option (SignerJob E)
  thread : Thread E
  ready : Nat → Oneshot
  handlers : Nat → Handler E
  /-- The number of the next request. -/
  next : Nat

inductive Act where
  | setup (settings : Settings)
  | lock (request : Nat)
  | check (request : Nat)
  | kms (request : Nat) (answer : Except String SharedSecretOutput)
  | submit (request : Nat)
  | poll (request : Nat)
  | timeout (request : Nat)
  | giveUp (request : Nat)
  | setArk (request : Nat)
  | setIdentity (request : Nat)
  | respond (request : Nat)
  | drop (request : Nat)
  | runtime (built : Bool)
  | receive
  | bind (result : Except String Unit)
  | report
  | stop
  | exit

inductive Event where
  | started (request : Nat) (settings : Settings)
  | asked (request : Nat) (message : SharedSecretRequest)
  | derived (request : Nat) (answer : Except String SharedSecretOutput)
      (root : T.Xpriv)
  | received (job : SignerJob E)
  | published (request : Nat) (identity : String)
  | answered (request : Nat) (reply : Except ApiError String)
  | dropped (request : Nat)

end

namespace World

variable {T : Types} {E : Enclave T}

def start : World E where
  gate := none
  identity := none
  arkSigner := none
  work := none
  thread := .starting
  ready := fun _ => .unmade
  handlers := fun _ => .absent
  next := 0

def setHandler (w : World E) (request : Nat) (handler : Handler E) :
    World E :=
  { w with handlers := Function.update w.handlers request handler }

def setReady (w : World E) (request : Nat) (oneshot : Oneshot) : World E :=
  { w with ready := Function.update w.ready request oneshot }

/-- The request's locals are dropped: its guard, and its receiver if it made
one. -/
def leave (w : World E) (request : Nat) : World E :=
  { w with
    gate := if w.gate = some request then none else w.gate
    ready := Function.update w.ready request (w.ready request).dropReceiver
    handlers := Function.update w.handlers request .done }

/-- The request returns. -/
def answer (w : World E) (request : Nat) (reply : Except ApiError String) :
    World E × List (Event E) :=
  (w.leave request, [.answered request reply])

/-! ## `setup` and `install` -/

def stepSetup (w : World E) (settings : Settings) :
    World E × List (Event E) :=
  match settings.validate with
  | .error _ =>
      ({ w.setHandler w.next .done with next := w.next + 1 },
        [.started w.next settings,
          .answered w.next (.error (400, "invalid setup settings"))])
  | .ok () =>
      ({ w.setHandler w.next (.validated settings) with next := w.next + 1 },
        [.started w.next settings])

/-- `setup_gate.try_lock()`. -/
def stepLock (w : World E) (request : Nat) : World E × List (Event E) :=
  match w.handlers request with
  | .validated settings =>
      if w.gate.isSome then
        w.answer request (.error (409, "setup already in progress"))
      else
        ({ w.setHandler request (.locked settings) with gate := some request },
          [])
  | _ => (w, [])

/-- The identity and NSM checks, and `derive_root` up to its await. -/
def stepCheck (w : World E) (request : Nat) : World E × List (Event E) :=
  match w.handlers request with
  | .locked settings =>
      if w.identity.isSome then
        w.answer request
          (.error (409, "already initialized; restart to change identity"))
      else if !E.nsm then
        w.answer request (.error (503, "Nitro provisioning unavailable"))
      else
        match deriveRequest E.keys settings with
        | .error _ =>
            w.answer request (.error (502, "attested KMS provisioning failed"))
        | .ok message =>
            (w.setHandler request (.deriving settings),
              [.asked request message])
  | _ => (w, [])

/-- KMS answers; the request goes on to where `install` sends its job. -/
def stepKms (w : World E) (request : Nat)
    (answer : Except String SharedSecretOutput) : World E × List (Event E) :=
  match w.handlers request with
  | .deriving settings =>
      match deriveFinish E.keys settings answer with
      | .error _ =>
          w.answer request (.error (502, "attested KMS provisioning failed"))
      | .ok root =>
          match install E root settings with
          | .error _ =>
              (w.leave request,
                [.derived request answer root, .answered request
                  (.error (503, "could not start signer"))])
          | .ok locals =>
              (w.setHandler request (.installing .submitting locals),
                [.derived request answer root])
  | _ => (w, [])

/-- Nobody receives from `work` any more. -/
def closed (w : World E) : Bool :=
  match w.thread with
  | .exited _ => true
  | _ => false

/-- `work.try_send(job)`. -/
def stepSubmit (w : World E) (request : Nat) : World E × List (Event E) :=
  match w.handlers request with
  | .installing .submitting locals =>
      if w.closed || w.work.isSome then
        w.answer request (.error (503, "could not start signer"))
      else
        ({ (w.setReady request .empty).setHandler request
            (.installing .waiting locals) with
          work := some ⟨locals.oracle, request⟩ }, [])
  | _ => (w, [])

/-- The await of `ready_rx` is polled. -/
def stepPoll (w : World E) (request : Nat) : World E × List (Event E) :=
  match w.handlers request with
  | .installing .waiting locals =>
      match w.ready request with
      | .sent (.ok ()) =>
          ((w.setReady request .receiverGone).setHandler request
            (.installing .bound locals), [])
      | .sent (.error _) | .senderGone =>
          w.answer request (.error (503, "could not start signer"))
      | _ => (w, [])
  | _ => (w, [])

/-- The five seconds are over and the oneshot is still empty. -/
def stepTimeout (w : World E) (request : Nat) : World E × List (Event E) :=
  match w.handlers request with
  | .installing .waiting locals =>
      match w.ready request with
      | .empty =>
          (w.setHandler request (.installing .timedOut locals), [])
      | _ => (w, [])
  | _ => (w, [])

def stepGiveUp (w : World E) (request : Nat) : World E × List (Event E) :=
  match w.handlers request with
  | .installing .timedOut _ =>
      w.answer request (.error (503, "could not start signer"))
  | _ => (w, [])

/-- `ark_signer.set(..)`. -/
def stepSetArk (w : World E) (request : Nat) : World E × List (Event E) :=
  match w.handlers request with
  | .installing .bound locals =>
      if w.arkSigner.isSome then
        w.answer request (.error (503, "could not start signer"))
      else
        ({ w.setHandler request (.installing .arkSet locals) with
          arkSigner := some locals.arkSigner }, [])
  | _ => (w, [])

/-- `identity.set(..)`. -/
def stepSetIdentity (w : World E) (request : Nat) :
    World E × List (Event E) :=
  match w.handlers request with
  | .installing .arkSet locals =>
      if w.identity.isSome then
        w.answer request (.error (503, "could not start signer"))
      else
        ({ w.setHandler request .published with
          identity := some locals.identity },
          [.published request locals.identity])
  | _ => (w, [])

def publicKey (w : World E) : Except ApiError String :=
  match w.identity with
  | some json => .ok json
  | none => .error (503, "not initialized")

def stepRespond (w : World E) (request : Nat) : World E × List (Event E) :=
  match w.handlers request with
  | .published => w.answer request w.publicKey
  | _ => (w, [])

/-- The future is dropped where it is suspended. -/
def stepDrop (w : World E) (request : Nat) : World E × List (Event E) :=
  match w.handlers request with
  | .deriving _ | .installing .waiting _ =>
      (w.leave request, [.dropped request])
  | _ => (w, [])

/-! ## The signer thread -/

def stepRuntime (w : World E) (built : Bool) : World E × List (Event E) :=
  match w.thread with
  | .starting =>
      if built then ({ w with thread := .receiving }, [])
      else ({ w with thread := .failing none }, [])
  | _ => (w, [])

def stepReceive (w : World E) : World E × List (Event E) :=
  match w.thread, w.work with
  | .receiving, some job =>
      ({ w with thread := .binding job, work := none }, [.received job])
  | _, _ => (w, [])

/-- `ready.send(..)`: the message is there, or the receiver was gone. -/
def send (w : World E) (request : Nat) (result : Except String Unit) :
    World E × Bool :=
  match w.ready request with
  | .empty => (w.setReady request (.sent result), true)
  | _ => (w, false)

def stepBind (w : World E) (result : Except String Unit) :
    World E × List (Event E) :=
  match w.thread with
  | .binding job =>
      match result with
      | .ok () => ({ w with thread := .reporting job }, [])
      | .error text =>
          let (w', _) := w.send job.ready (.error text)
          ({ w' with thread := .failing (some job) }, [])
  | _ => (w, [])

def stepReport (w : World E) : World E × List (Event E) :=
  match w.thread with
  | .reporting job =>
      match w.send job.ready (.ok ()) with
      | (w', true) => ({ w' with thread := .serving job }, [])
      | (w', false) => ({ w' with thread := .failing (some job) }, [])
  | _ => (w, [])

/-- `serve_with_limits` returns, with an error or without. -/
def stepStop (w : World E) : World E × List (Event E) :=
  match w.thread with
  | .serving job => ({ w with thread := .failing (some job) }, [])
  | _ => (w, [])

/-- The thread's future is dropped, and with it the channel and what is
queued in it. -/
def stepExit (w : World E) : World E × List (Event E) :=
  match w.thread with
  | .failing received =>
      match w.work with
      | none => ({ w with thread := .exited received }, [])
      | some job =>
          ({ w.setReady job.ready (w.ready job.ready).dropSender with
            thread := .exited received, work := none }, [])
  | _ => (w, [])

def step (w : World E) : Act → World E × List (Event E)
  | .setup settings => w.stepSetup settings
  | .lock request => w.stepLock request
  | .check request => w.stepCheck request
  | .kms request answer => w.stepKms request answer
  | .submit request => w.stepSubmit request
  | .poll request => w.stepPoll request
  | .timeout request => w.stepTimeout request
  | .giveUp request => w.stepGiveUp request
  | .setArk request => w.stepSetArk request
  | .setIdentity request => w.stepSetIdentity request
  | .respond request => w.stepRespond request
  | .drop request => w.stepDrop request
  | .runtime built => w.stepRuntime built
  | .receive => w.stepReceive
  | .bind result => w.stepBind result
  | .report => w.stepReport
  | .stop => w.stepStop
  | .exit => w.stepExit

end World

/-- One process, from its start. -/
def app {T : Types} (E : Enclave T) : Machine (World E) Act (Event E) :=
  ⟨World.start, World.step⟩

end SapioTee.App
