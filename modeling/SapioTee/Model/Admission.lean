import SapioTee.Lib.Trace
import SapioTee.Model.ArkSigner
import SapioTee.Model.Deployment

/-!
# Admission of `POST /ark/prepare` (`src/app.rs`)

A prepare may compile and run a WASM module, so it runs on the blocking pool
and not in the handler. The handler takes a permit of `ark_admission`, moves
it into the task it spawns and awaits the task; the permit is the task's, and
is given back when the task ends, whatever has become of the handler.

A handler is a future with two awaits: the extraction of its body, which is
done before any of its own code runs, and the task. At either it may be
dropped, by the request deadline (the client is answered 408) or because the
client went away; a task whose handler is gone still runs. Everything between
two awaits is one step. In front of the handlers stands the route's own
limit, which sheds a request that finds no slot, and whose slot is given
back when the handler answers or is dropped.

A task ends by returning, or by a panic in a build that unwinds (the release
profile aborts the process instead); its locals, and with them the permit,
are dropped either way. `admission` takes any interleaving of arrivals,
extractions, drops, and tasks being started and finished by the pool.
-/

namespace SapioTee.Admission

open Lib

/-- `.concurrency_limit(16)`. -/
def concurrencyLimit : Nat := 16

/-- What a request may be answered. An extractor's own answer and the error
of a prepare are carried as they are. -/
inductive Reply where
  | prepared (response : PrepareResponse)
  | unprocessable (error : Error)
  | notInitialized
  | arkSignerUnavailable
  | evaluationCapacity
  | evaluatorUnavailable
  | apiCapacity
  | deadline
  | rejected (text : String)

/-- The texts written in this repository. -/
def Reply.text : Reply → Option (Nat × String)
  | .notInitialized => some (503, "not initialized")
  | .arkSignerUnavailable => some (503, "Ark signer unavailable")
  | .evaluationCapacity => some (503, "program evaluation capacity exceeded")
  | .evaluatorUnavailable => some (500, "program evaluator unavailable")
  | .apiCapacity => some (503, "API capacity exceeded")
  | .deadline => some (408, "request deadline exceeded")
  | _ => none

/-- One execution of `ArkSigner::prepare`: the closure given to
`spawn_blocking`, which owns the permit. -/
structure Task (T : Types) where
  request : Nat
  signer : ArkSigner T
  body : PrepareRequest T

inductive Handler where
  | absent
  /-- Awaiting its body. -/
  | extracting
  /-- Awaiting its task. -/
  | joining
  /-- The task has ended; its result is with the join handle, or nothing if
  it panicked. -/
  | joined (result : Option (Except Error PrepareResponse))
  | gone

structure World (T : Types) where
  identity : Bool
  arkSigner : Option (ArkSigner T)
  /-- The permits `ark_admission` has left. -/
  permits : Nat
  /-- The slots the route's concurrency limit has left. -/
  slots : Nat
  handlers : Nat → Handler
  /-- Spawned and not yet taken up by a thread of the pool. -/
  queued : List (Task T)
  running : List (Task T)
  /-- The number of the next request. -/
  next : Nat

inductive Act (T : Types) where
  | setArk (signer : ArkSigner T)
  | setIdentity
  | arrive
  | extract (request : Nat) (body : Except String (PrepareRequest T))
  | start (request : Nat)
  | complete (request : Nat)
      (result : Option (Except Error PrepareResponse))
  | wake (request : Nat)
  | deadline (request : Nat)
  | disconnect (request : Nat)

inductive Event (T : Types) where
  | replied (request : Nat) (reply : Reply)
  | spawned (task : Task T)
  | completed (task : Task T)
  | dropped (request : Nat)

variable {T : Types}

/-- The first task of a request, and the others. -/
def remove (request : Nat) : List (Task T) → Option (Task T × List (Task T))
  | [] => none
  | task :: tasks =>
      if task.request = request then some (task, tasks)
      else (remove request tasks).map fun (found, rest) => (found, task :: rest)

namespace World

def start : World T :=
  { identity := false
    arkSigner := none
    permits := maxConnections
    slots := concurrencyLimit
    handlers := fun _ => .absent
    queued := []
    running := []
    next := 0 }

def setHandler (w : World T) (request : Nat) (handler : Handler) : World T :=
  { w with handlers := Function.update w.handlers request handler }

/-- The handler is over: its slot is free again. -/
def leave (w : World T) (request : Nat) : World T :=
  { w.setHandler request .gone with slots := w.slots + 1 }

/-- A handler that answers. -/
def answer (w : World T) (request : Nat) (reply : Reply) :
    World T × List (Event T) :=
  (w.leave request, [.replied request reply])

/-- The router: `load_shed` in front of the concurrency limit. -/
def stepArrive (w : World T) : World T × List (Event T) :=
  if w.slots = 0 then
    ({ w.setHandler w.next .gone with next := w.next + 1 },
      [.replied w.next .apiCapacity])
  else
    ({ w.setHandler w.next .extracting with
        slots := w.slots - 1
        next := w.next + 1 }, [])

/-- `ark_signer`. -/
def arkSignerOf (w : World T) : Except Reply (ArkSigner T) :=
  if w.identity then
    match w.arkSigner with
    | some signer => .ok signer
    | none => .error .arkSignerUnavailable
  else .error .notInitialized

/-- `ark_prepare` up to its await: the signer, a permit, and the task that
takes the permit with it. -/
def stepPrepare (w : World T) (request : Nat) (body : PrepareRequest T) :
    World T × List (Event T) :=
  match w.arkSignerOf with
  | .error reply => w.answer request reply
  | .ok signer =>
      if w.permits = 0 then w.answer request .evaluationCapacity
      else
        ({ w.setHandler request .joining with
            permits := w.permits - 1
            queued := w.queued ++ [⟨request, signer, body⟩] },
          [.spawned ⟨request, signer, body⟩])

def stepExtract (w : World T) (request : Nat)
    (body : Except String (PrepareRequest T)) : World T × List (Event T) :=
  match w.handlers request with
  | .extracting =>
      match body with
      | .error text => w.answer request (.rejected text)
      | .ok body => w.stepPrepare request body
  | _ => (w, [])

def stepStart (w : World T) (request : Nat) : World T × List (Event T) :=
  match remove request w.queued with
  | none => (w, [])
  | some (task, queued) =>
      ({ w with queued := queued, running := w.running ++ [task] }, [])

/-- The closure ends: its permit is dropped, and its result is kept for a
handler that still awaits it. -/
def stepComplete (w : World T) (request : Nat)
    (result : Option (Except Error PrepareResponse)) :
    World T × List (Event T) :=
  match remove request w.running with
  | none => (w, [])
  | some (task, running) =>
      let w' := { w with permits := w.permits + 1, running := running }
      match w.handlers request with
      | .joining => (w'.setHandler request (.joined result), [.completed task])
      | _ => (w', [.completed task])

def stepWake (w : World T) (request : Nat) : World T × List (Event T) :=
  match w.handlers request with
  | .joined (some (.ok response)) => w.answer request (.prepared response)
  | .joined (some (.error error)) => w.answer request (.unprocessable error)
  | .joined none => w.answer request .evaluatorUnavailable
  | _ => (w, [])

/-- The handler future is dropped where it is suspended. -/
def dropHandler (w : World T) (request : Nat) (event : Event T) :
    World T × List (Event T) :=
  match w.handlers request with
  | .absent => (w, [])
  | .gone => (w, [])
  | _ => (w.leave request, [event])

def step (w : World T) : Act T → World T × List (Event T)
  | .setArk signer =>
      ({ w with arkSigner := w.arkSigner.or (some signer) }, [])
  | .setIdentity => ({ w with identity := true }, [])
  | .arrive => w.stepArrive
  | .extract request body => w.stepExtract request body
  | .start request => w.stepStart request
  | .complete request result => w.stepComplete request result
  | .wake request => w.stepWake request
  | .deadline request => w.dropHandler request (.replied request .deadline)
  | .disconnect request => w.dropHandler request (.dropped request)

end World

/-- The route under any interleaving, from the process's start. -/
def admission (T : Types) : Machine (World T) (Act T) (Event T) :=
  ⟨World.start, World.step⟩

end SapioTee.Admission
