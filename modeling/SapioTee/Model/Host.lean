import SapioTee.Model.Attestation
import SapioTee.Model.Process

/-!
# A host, its enclaves and a verifier

The setting the attestation is for. A host runs any number of enclaves of one
measured image, and enclaves of other images; it moves every message, may
keep, change and repeat what it has seen, and hands the verifier whatever it
likes. What it can do is in the actions: which enclave takes which step, which
nonce an enclave is asked about, which response a verifier gets. An enclave
of the image is a `Process`; the verifier is the script.

The NSM is a party of its own. It answers what an enclave asks it with a quote,
or fails; it also quotes for enclaves of other images, whatever these ask.
Whose registers a quote shows, and what else is in it, is the NSM's promise
and not a matter of this machine; what an enclave asks is, and `Nsm.attestIn`
runs here over a driver that keeps record of it.
-/

namespace SapioTee.Host

open Lib

/-- What the NSM signs, and the document it puts that into. -/
structure Quote where
  header : Bytes
  payload : Bytes
  document : Bytes

structure World {T : Types} (E : App.Enclave T) where
  /-- The enclaves of the image. -/
  enclaves : Nat → Process.World E
  /-- The NSM's, in milliseconds. -/
  clock : Nat

inductive Act (T : Types) where
  | enclave (i : Nat) (a : Process.Act T)
  /-- `POST /attestation` at an enclave of the image, and what the NSM signs
  for what it may be asked. -/
  | attest (i : Nat) (nonce : String)
      (sign : Bytes → Bytes → Option Quote)
  /-- A quote for an enclave of another image. -/
  | elsewhere (quote : Quote)
  | tick (milliseconds : Nat)
  | verify (c : Verifier.Challenge) (response : Json) (clock : Nat)
      (nowMs : Int)

inductive Event {T : Types} (E : App.Enclave T) where
  | enclave (i : Nat) (e : Process.Event E)
  /-- The NSM was asked by an enclave of the image and has signed. -/
  | quoted (i : Nat) (nonce userData : Bytes) (time : Nat) (quote : Quote)
  | quotedElsewhere (quote : Quote)
  | answered (i : Nat)
      (reply : Except App.ApiError App.AttestationResponse)
  | verified (c : Verifier.Challenge) (response : Json) (clock : Nat)
      (nowMs : Int) (result : Except Error Json)

/-- The driver in an enclave: it hands the request to the NSM, and what the
NSM has signed is on record. -/
def processRequest {T : Types} {E : App.Enclave T} (i time : Nat)
    (sign : Bytes → Bytes → Option Quote) (nonce userData : Bytes) :
    StateM (List (Event E)) Nsm.Response := fun events =>
  match sign nonce userData with
  | some quote =>
      (.attestation quote.document,
        events ++ [.quoted i nonce userData time quote])
  | none => (.other, events)

namespace World

variable {T : Types} {E : App.Enclave T} (A : AttestationCrates)
  (V : VerifierCrates T)

def start : World E where
  enclaves := fun _ => Process.World.start
  clock := 0

def stepEnclave (w : World E) (i : Nat) (a : Process.Act T) :
    World E × List (Event E) :=
  ({ w with enclaves :=
      Function.update w.enclaves i ((w.enclaves i).step a).1 },
    ((w.enclaves i).step a).2.map (.enclave i))

/-- The handler awaits nothing, so it is one step. -/
def stepAttest (w : World E) (i : Nat) (nonce : String)
    (sign : Bytes → Bytes → Option Quote) : World E × List (Event E) :=
  let result := (w.enclaves i).app.attestationIn
    (processRequest i w.clock sign) nonce []
  (w, result.2 ++ [.answered i result.1])

def step (w : World E) : Act T → World E × List (Event E)
  | .enclave i a => w.stepEnclave i a
  | .attest i nonce sign => w.stepAttest i nonce sign
  | .elsewhere quote => (w, [.quotedElsewhere quote])
  | .tick milliseconds => ({ w with clock := w.clock + milliseconds }, [])
  | .verify c response clock nowMs =>
      (w, [.verified c response clock nowMs
        (Verifier.verifyResponse A V c response clock nowMs)])

end World

/-- The host's machine: any interleaving of all parties. -/
def host {T : Types} (E : App.Enclave T) (A : AttestationCrates)
    (V : VerifierCrates T) : Machine (World E) (Act T) (Event E) :=
  ⟨World.start, World.step A V⟩

end SapioTee.Host
