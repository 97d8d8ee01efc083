import SapioTee.Model.Admission
import SapioTee.Model.App

/-!
# One process: setup, the Ark routes and the signer (`src/app.rs`)

The handlers of one process share `AppState`. `app` is setup and the signer
thread, `admission` is the route of `/ark/prepare`, `signer` is the object
the Ark routes call; here they run together. The two `OnceLock`s are written
by setup and read by the Ark routes, so `admission` carries a copy that every
write updates. A handler or task that reads the Ark signer keeps its own
clone of it for the rest of its call (`owners`).

`ark_finish` and `ark_cancel` await nothing after their body, so they are
the two reads and then the signer's own steps; that a router in front of them
may shed them or answer first takes no step of theirs away and is left out.
A prepare's task enters the signer once the pool runs it, and ends with what
its call returned.
-/

namespace SapioTee.Process

open Lib

structure World {T : Types} (E : App.Enclave T) where
  app : App.World E
  admission : Admission.World T
  signer : SapioTee.World T
  /-- The call of the signer that a request's task has made. -/
  calls : Nat → Option Nat
  /-- The signer a call was made on. -/
  owners : Nat → Option (ArkSigner T)
  /-- What a call of `prepare` has returned. -/
  results : Nat → Option (Except Error PrepareResponse)

inductive Act (T : Types) where
  | app (a : App.Act)
  | admission (a : Admission.Act T)
  | tick (nanos : Nat)
  | enter (request : Nat)
  | readClock (call : Nat)
  | reserve (call : Nat) (entropy : T.Entropy) (draws : List Hash)
  | leave (request : Nat)
  | finish (request : FinishRequest)
  | sign (call : Nat)
  | cancel (request : CancelRequest)

inductive Event {T : Types} (E : App.Enclave T) where
  | app (e : App.Event E)
  | admission (e : Admission.Event T)
  | signer (e : SapioTee.Event T)
  /-- `ark_finish` or `ark_cancel` found no signer. -/
  | refused (reply : Admission.Reply)

/-- What the calls that return in these events return. -/
def record {T : Types} (results : Nat → Option (Except Error PrepareResponse)) :
    List (SapioTee.Event T) → Nat → Option (Except Error PrepareResponse)
  | [] => results
  | .refused call _ error :: es =>
      record (Function.update results call (some (.error error))) es
  | .prepared call _ _ response _ :: es =>
      record (Function.update results call (some (.ok response))) es
  | _ :: es => record results es

/-- How a task ends: a panic is a join error for its handler. -/
def outcome : Except Error PrepareResponse →
    Option (Except Error PrepareResponse)
  | .error (.panic _) => none
  | result => some result

namespace World

variable {T : Types} {E : App.Enclave T}

def start : World E where
  app := App.World.start
  admission := Admission.World.start
  signer := SapioTee.World.start
  calls := fun _ => none
  owners := fun _ => none
  results := fun _ => none

/-- The `OnceLock`s as the Ark routes read them. -/
def share (w : World E) (app : App.World E) : World E :=
  { w with
    app := app
    admission := { w.admission with
      identity := app.identity.isSome
      arkSigner := app.arkSigner } }

def stepApp (w : World E) (a : App.Act) : World E × List (Event E) :=
  (w.share (w.app.step a).1, (w.app.step a).2.map .app)

/-- A step of the route that is neither a write of setup's nor the end of a
task. -/
def stepAdmission (w : World E) :
    Admission.Act T → World E × List (Event E)
  | .setArk _ | .setIdentity | .complete _ _ => (w, [])
  | a => ({ w with admission := (w.admission.step a).1 },
      (w.admission.step a).2.map .admission)

/-- A step of the signer on one of its clones. -/
def stepSigner (w : World E) (self : ArkSigner T) (a : SapioTee.Act T) :
    World E × List (Event E) :=
  ({ w with
      signer := (w.signer.step E.crates self a).1
      results := record w.results (w.signer.step E.crates self a).2 },
    (w.signer.step E.crates self a).2.map .signer)

/-- The same, for a new call. -/
def stepCall (w : World E) (self : ArkSigner T) (a : SapioTee.Act T) :
    World E × List (Event E) :=
  ({ (w.stepSigner self a).1 with
      owners := Function.update w.owners w.signer.next (some self) },
    (w.stepSigner self a).2)

/-- The closure of a task starts: `signer.prepare(request)`. -/
def stepEnter (w : World E) (request : Nat) : World E × List (Event E) :=
  match w.admission.running.find? (fun task => task.request == request),
      w.calls request with
  | some task, none =>
      ({ (w.stepCall task.signer (.prepare task.body)).1 with
          calls := Function.update w.calls request (some w.signer.next) },
        (w.stepCall task.signer (.prepare task.body)).2)
  | _, _ => (w, [])

/-- A later step of a call, on the signer it was made on. -/
def stepOwned (w : World E) (call : Nat) (a : SapioTee.Act T) :
    World E × List (Event E) :=
  match w.owners call with
  | none => (w, [])
  | some self => w.stepSigner self a

/-- The closure ends with what its call returned. -/
def stepLeave (w : World E) (request : Nat) : World E × List (Event E) :=
  match (w.calls request).bind w.results with
  | none => (w, [])
  | some result =>
      ({ w with
          admission := (w.admission.step
            (.complete request (outcome result))).1 },
        (w.admission.step (.complete request (outcome result))).2.map
          .admission)

/-- `ark_finish` and `ark_cancel`, as far as the signer's own lock. -/
def stepArk (w : World E) (a : SapioTee.Act T) : World E × List (Event E) :=
  match w.admission.arkSignerOf with
  | .error reply => (w, [.refused reply])
  | .ok self => w.stepCall self a

def step (w : World E) : Act T → World E × List (Event E)
  | .app a => w.stepApp a
  | .admission a => w.stepAdmission a
  | .tick nanos =>
      ({ w with signer := { w.signer with clock := w.signer.clock + nanos } },
        [])
  | .enter request => w.stepEnter request
  | .readClock call => w.stepOwned call (.readClock call)
  | .reserve call entropy draws => w.stepOwned call (.reserve call entropy draws)
  | .leave request => w.stepLeave request
  | .finish request => w.stepArk (.finish request)
  | .sign call => w.stepOwned call (.sign call)
  | .cancel request => w.stepArk (.cancel request)

end World

/-- One process from its start, its handlers, its pool and its signer thread
interleaved in any way. -/
def process {T : Types} (E : App.Enclave T) :
    Machine (World E) (Act T) (Event E) :=
  ⟨World.start, World.step⟩

end SapioTee.Process
