import SapioTee.Model.Symbolic
import SapioTee.Proofs.Setup

/-!
# Published once, consistently, for good

What the invariants of `Setup` say of a whole run: the identity is set at
most once and stays; everything that goes with it was made for one request;
and a request that comes later is told so. A late request still goes through
the gate, so for as long as it holds the gate another late one hears `setup
already in progress` instead, which is the same status.
-/

namespace SapioTee.App

open Lib

section

variable {T : Types} {E : Enclave T} {w w' : World E} {a : Act}
  {es new : List (Event E)}

/-! ## Requests that start after publication -/

/-- The request an action is a step of. -/
def Act.request : Act → Option Nat
  | .lock k | .check k | .kms k _ | .submit k | .poll k | .timeout k
  | .giveUp k | .setArk k | .setIdentity k | .respond k | .drop k => some k
  | .setup _ | .runtime _ | .receive | .bind _ | .report | .stop | .exit =>
      none

/-- The reply is a 409. -/
def Conflict (reply : Except ApiError String) : Prop :=
  ∃ text, reply = .error (409, text)

/-- Nothing changed but where request `k` is and whether it has the gate. -/
structure Inert (k : Nat) (w w' : World E) : Prop where
  identity : w'.identity = w.identity
  arkSigner : w'.arkSigner = w.arkSigner
  work : w'.work = w.work
  thread : w'.thread = w.thread
  ready : w'.ready = w.ready
  handlers : ∀ j, j ≠ k → w'.handlers j = w.handlers j
  gate : ∀ j, j ≠ k → (w'.gate = some j ↔ w.gate = some j)

theorem inert_refl (k : Nat) (w : World E) : Inert k w w :=
  ⟨rfl, rfl, rfl, rfl, rfl, fun _ _ => rfl, fun _ _ => Iff.rfl⟩

/-- Without a receiver to drop, leaving is only leaving. -/
theorem inert_leave {k : Nat} (h : w.ready k = .unmade) :
    Inert k w (w.leave k) where
  identity := rfl
  arkSigner := rfl
  work := rfl
  thread := rfl
  ready := by
    show Function.update w.ready k (w.ready k).dropReceiver = w.ready
    rw [h]
    show Function.update w.ready k .unmade = w.ready
    rw [← h, Function.update_eq_self]
  handlers := fun j hj => Function.update_of_ne hj _ _
  gate := by
    intro j hj
    show (if w.gate = some k then none else w.gate) = some j ↔ _
    split
    · next hg => simp [hg, hj.symm]
    · exact Iff.rfl

/-- A request that started when the identity was set, and what it can have
been told. -/
structure Late (w : World E) (es : List (Event E)) (k : Nat) : Prop where
  identity : w.identity ≠ none
  place : (∃ settings, w.handlers k = .validated settings) ∨
    (∃ settings, w.handlers k = .locked settings) ∨
    (w.handlers k = .done ∧ ∃ reply, .answered k reply ∈ es)
  replies : ∀ reply, .answered k reply ∈ es → Conflict reply

/-- Whichever of the two checks it ends at, the answer is a conflict. -/
theorem Leaves.conflicts {k : Nat} (h : Leaves w k a new)
    (hi : w.identity ≠ none)
    (hx : (∃ settings, w.handlers k = .validated settings) ∨
      ∃ settings, w.handlers k = .locked settings) :
    ∃ text, new = [.answered k (.error (409, text))] := by
  cases h with
  | busy _ _ => exact ⟨_, rfl⟩
  | conflict _ _ => exact ⟨_, rfl⟩
  | noNsm _ hnone _ => exact absurd hnone hi
  | noRequest _ hnone _ => exact absurd hnone hi
  | noRoot h _ | noInstall h _ _ | noPlace h _ | notBound h _ | gaveUp h
  | arkTaken h _ | identityTaken h _ | responded h | droppedDeriving h
  | droppedWaiting h =>
      rw [h] at hx
      rcases hx with ⟨_, hx⟩ | ⟨_, hx⟩ <;> cases hx

theorem Late.present {k : Nat} (hl : Late w es k) :
    w.handlers k ≠ .absent := by
  intro habsent
  have hplace := hl.place
  rw [habsent] at hplace
  rcases hplace with ⟨_, h⟩ | ⟨_, h⟩ | ⟨h, -⟩ <;> cases h

/-- It has returned, or is at one of the two checks. -/
theorem Late.leaves {k : Nat} (hl : Late w es k) (h : Leaves w k a new) :
    ∃ text, new = [.answered k (.error (409, text))] := by
  refine h.conflicts hl.identity ?_
  rcases hl.place with hk | hk | ⟨hk, -⟩
  · exact .inl hk
  · exact .inr hk
  · have hlive := h.live
    rw [hk] at hlive
    rcases hlive with hlive | ⟨⟨_, hlive⟩, -⟩
    · exact absurd hlive id
    · cases hlive

theorem Late.place_step {k : Nat} (hl : Late w es k) (hg : Guarded w)
    (h : Moves w a w' new) :
    (∃ settings, w'.handlers k = .validated settings) ∨
    (∃ settings, w'.handlers k = .locked settings) ∨
    (w'.handlers k = .done ∧ ∃ reply, .answered k reply ∈ es ++ new) := by
  have hreq := h.request hg k
  have hplace := hl.place
  have hleaves : Leaves w k a new → ∃ reply, .answered k reply ∈ es ++ new := by
    intro hleft
    obtain ⟨text, rfl⟩ := hl.leaves hleft
    exact ⟨_, List.mem_append_right _ List.mem_cons_self⟩
  generalize w.handlers k = x, w.ready k = o, w'.handlers k = x',
    w'.ready k = o' at hreq hplace
  cases hreq with
  | locked => exact .inr (.inl ⟨_, rfl⟩)
  | asked hi => exact absurd (h.identity_none hi) hl.identity
  | left hleft => exact .inr (.inr ⟨rfl, hleaves hleft⟩)
  | same | failed _ _ _ _ | reported _ _ _ _ | unsent _ _ =>
      rcases hplace with hk | hk | ⟨hk, reply, hmem⟩
      · exact .inl hk
      · exact .inr (.inl hk)
      · exact .inr (.inr ⟨hk, reply, List.mem_append_left _ hmem⟩)
  | refused _ | started _ _ | built _ _ _ | submitted | confirmed | timedOut
  | arkSet _ | published _ =>
      rcases hplace with ⟨_, hk⟩ | ⟨_, hk⟩ | ⟨hk, -⟩ <;> cases hk

theorem Late.replies_step {k : Nat} (hl : Late w es k) (hg : Guarded w)
    (h : Moves w a w' new) (reply : Except ApiError String)
    (hmem : .answered k reply ∈ es ++ new) : Conflict reply := by
  rcases List.mem_append.mp hmem with hold | hnew
  · exact hl.replies reply hold
  · rcases h.answered_cases hnew with ⟨hk, -⟩ | hleft
    · exact absurd (hg.unused k (Nat.le_of_eq hk.symm)) hl.present
    · obtain ⟨text, rfl⟩ := hl.leaves hleft
      simp only [List.mem_singleton] at hnew
      injection hnew with _ hreply
      exact ⟨text, hreply⟩

theorem Late.step {k : Nat} (hl : Late w es k) (hg : Guarded w)
    (h : Moves w a w' new) : Late w' (es ++ new) k where
  identity := fun hnone => hl.identity (h.identity_none hnone)
  place := hl.place_step hg h
  replies := hl.replies_step hg h

/-- What its own steps do. -/
theorem Late.inert {k : Nat} (hl : Late w es k) (hg : Guarded w) {a : Act}
    (ha : a.request = some k) : Inert k w (w.step a).1 := by
  have hid := Option.isSome_iff_ne_none.mpr hl.identity
  have hfits := hg.fits k
  cases a with
  | lock j =>
      injection ha with ha
      subst ha
      simp only [World.step, World.stepLock]
      split
      · next settings hk =>
          split
          · rw [hk] at hfits
            exact inert_leave hfits
          · next hgate =>
              refine ⟨rfl, rfl, rfl, rfl, rfl, ?_, ?_⟩
              · exact fun i hi => Function.update_of_ne hi _ _
              · intro i hi
                have hnone : w.gate = none := by simpa using hgate
                simp [hnone, hi.symm]
      · exact inert_refl _ _
  | check j =>
      injection ha with ha
      subst ha
      simp only [World.step, World.stepCheck, hid, if_true]
      split
      · next settings hk =>
          rw [hk] at hfits
          exact inert_leave hfits
      · exact inert_refl _ _
  | setup settings => cases ha
  | runtime built => cases ha
  | receive => cases ha
  | bind result => cases ha
  | report => cases ha
  | stop => cases ha
  | exit => cases ha
  | _ =>
      injection ha with ha
      subst ha
      obtain ⟨settings, hk⟩ | ⟨settings, hk⟩ | ⟨hk, -⟩ := hl.place <;>
        simp only [World.step, World.stepKms, World.stepSubmit,
          World.stepPoll, World.stepTimeout, World.stepGiveUp,
          World.stepSetArk, World.stepSetIdentity, World.stepRespond,
          World.stepDrop, hk] <;>
        exact inert_refl _ _

/-- Two steps of its own and it has returned. -/
theorem Late.returns {k : Nat} (hl : Late w es k) :
    ((w.step (.lock k)).1.step (.check k)).1.handlers k = .done := by
  have hid := Option.isSome_iff_ne_none.mpr hl.identity
  obtain ⟨settings, hk⟩ | ⟨settings, hk⟩ | ⟨hk, -⟩ := hl.place
  · by_cases hg : w.gate.isSome = true
    · simp [World.step, World.stepLock, World.stepCheck, World.answer,
        World.leave, hk, hg]
    · simp [World.step, World.stepLock, World.stepCheck, World.answer,
        World.leave, World.setHandler, hk, hg, hid]
  · simp [World.step, World.stepLock, World.stepCheck, World.answer,
      World.leave, hk, hid]
  · simp [World.step, World.stepLock, World.stepCheck, hk]

theorem late_of_setup {settings : Settings} (hs : Sound w es)
    (hi : w.identity ≠ none) (hv : settings.validate = .ok ()) :
    Late (w.step (.setup settings)).1
      (es ++ (w.step (.setup settings)).2) w.next := by
  simp only [World.step, World.stepSetup, hv]
  refine ⟨hi, .inl ⟨settings, Function.update_self _ _ _⟩, ?_⟩
  intro reply hmem
  have hold : .answered w.next reply ∈ es := by simpa using hmem
  have hlt := hs.told.answered _ _ hold
  omega

/-- And so it goes in every continuation. -/
theorem late_append (E : Enclave T) {acts : List Act} {k : Nat}
    (h : Late ((app E).state acts) ((app E).trace acts) k)
    (more : List Act) :
    Late ((app E).state (acts ++ more)) ((app E).trace (acts ++ more)) k :=
  (app E).stable_append (P := fun w es => Late w es k) h
    (fun bs a ih => ih.step (sound E bs).guarded (step_moves _ a)) more

theorem identity_append (E : Enclave T) {acts : List Act} {text : String}
    (h : ((app E).state acts).identity = some text) (more : List Act) :
    ((app E).state (acts ++ more)).identity = some text :=
  (app E).stable_append (P := fun w _ => w.identity = some text) h
    (fun _ a ih => (step_moves _ a).identity ih) more

/-- A setup request made after the run `acts`, whatever else happens then, is
answered with a conflict and with nothing else, within two steps of its own,
and none of its steps changes anything. -/
structure Refused (E : Enclave T) (acts : List Act) (settings : Settings) :
    Prop where
  starts : Inert ((app E).state acts).next ((app E).state acts)
    ((app E).state (acts ++ [.setup settings]))
  steps : ∀ more a, a.request = some ((app E).state acts).next →
    Inert ((app E).state acts).next
      ((app E).state (acts ++ [.setup settings] ++ more))
      ((app E).state (acts ++ [.setup settings] ++ more ++ [a]))
  replies : ∀ more reply,
    .answered ((app E).state acts).next reply ∈
      (app E).trace (acts ++ [.setup settings] ++ more) → Conflict reply
  returns : ∀ more, ∃ reply,
    .answered ((app E).state acts).next reply ∈
      (app E).trace (acts ++ [.setup settings] ++ more ++
        [.lock ((app E).state acts).next, .check ((app E).state acts).next])

theorem refused_of_published (E : Enclave T) {acts : List Act}
    {settings : Settings} (hi : ((app E).state acts).identity ≠ none)
    (hv : settings.validate = .ok ()) : Refused E acts settings := by
  have hlate : Late ((app E).state (acts ++ [.setup settings]))
      ((app E).trace (acts ++ [.setup settings]))
      ((app E).state acts).next := by
    rw [Machine.state_concat, Machine.trace_concat]
    exact late_of_setup (sound E acts) hi hv
  refine ⟨?_, ?_, ?_, ?_⟩
  · rw [Machine.state_concat]
    show Inert _ _ (((app E).state acts).step (.setup settings)).1
    simp only [World.step, World.stepSetup, hv]
    refine ⟨rfl, rfl, rfl, rfl, rfl, ?_, fun _ _ => Iff.rfl⟩
    exact fun j hj => Function.update_of_ne hj _ _
  · intro more a ha
    rw [(app E).state_concat (acts ++ [Act.setup settings] ++ more) a]
    exact (late_append E hlate more).inert (sound E _).guarded ha
  · intro more
    exact (late_append E hlate more).replies
  · intro more
    have hreturns := (late_append E hlate more).returns
    have hend := late_append E (late_append E hlate more)
      [.lock ((app E).state acts).next, .check ((app E).state acts).next]
    have hdone : ((app E).state (acts ++ [.setup settings] ++ more ++
        [.lock ((app E).state acts).next,
          .check ((app E).state acts).next])).handlers
        ((app E).state acts).next = .done := by
      rw [Machine.state_append]
      exact hreturns
    obtain ⟨_, hk⟩ | ⟨_, hk⟩ | ⟨-, hreply⟩ := hend.place
    · rw [hdone] at hk
      cases hk
    · rw [hdone] at hk
      cases hk
    · exact hreply

/-! ## One root per process -/

/-- The identity, the Ark signer and the only oracle the signer thread ever
received were made from the settings of one request and the root that KMS's
answer to it gave. -/
structure OneRequest (w : World E) (es : List (Event E)) (k : Nat)
    (settings : Settings) (root : T.Xpriv) : Prop where
  started : .started k settings ∈ es
  derived : ∃ answer, .derived k answer root ∈ es ∧
    deriveFinish E.keys settings answer = .ok root
  made : ∃ oracle arkSigner text,
    programOracle E.oracles root = .ok oracle ∧
    ArkSigner.new E.crates (evaluators E.oracles) root = .ok arkSigner ∧
    E.toJson (identityOf E oracle (some settings)) = .ok text ∧
    w.identity = some text ∧ w.arkSigner = some arkSigner ∧
    arkSigner.root = root ∧ receivedJobs es = [⟨oracle, k⟩]

theorem arkSigner_root {registry : Except Error (List WasmEvaluator)}
    {root : T.Xpriv} {C : Crates T} {arkSigner : ArkSigner T}
    (h : ArkSigner.new C registry root = .ok arkSigner) :
    arkSigner.root = root := by
  rw [ArkSigner.new] at h
  split at h
  · cases h
  · obtain ⟨evaluators, -, h⟩ := bind_ok h
    injection h with h
    rw [← h]

theorem Publication.oneRequest {k : Nat} {i : Install E}
    (hp : Publication w es k i) (ht : Told w es) :
    OneRequest w es k i.settings i.root where
  started := hp.started
  derived := hp.derived
  made := ⟨i.oracle, i.arkSigner, i.identity, i.oracle_eq, i.arkSigner_eq,
    i.identity_eq, hp.identity, hp.arkSigner, arkSigner_root i.arkSigner_eq,
    by rw [ht.received, hp.received]; rfl⟩

theorem one_root (E : Enclave T) (acts : List Act) :
    (publications ((app E).trace acts)).length ≤ 1 ∧
    ∀ text, ((app E).state acts).identity = some text →
      (∀ more, ((app E).state (acts ++ more)).identity = some text) ∧
      (∃ k settings root, OneRequest ((app E).state acts)
        ((app E).trace acts) k settings root) ∧
      ∀ settings, settings.validate = .ok () → Refused E acts settings := by
  have hs := sound E acts
  refine ⟨?_, ?_⟩
  · have hlen := congrArg List.length hs.told.published
    rw [List.length_map] at hlen
    rw [hlen]
    cases ((app E).state acts).identity with
    | none => exact Nat.zero_le _
    | some text => exact Nat.le_refl _
  · intro text hi
    have hset : ((app E).state acts).identity ≠ none := by simp [hi]
    refine ⟨identity_append E hi, ?_, fun settings hv =>
      refused_of_published E hset hv⟩
    obtain ⟨k, i, hp⟩ := hs.told.publication hset
    exact ⟨k, i.settings, i.root, hp.oneRequest hs.told⟩

theorem one_root_publishedRun :
    Symbolic.settings.validate = .ok () ∧
    ((app symbolicEnclave).state Symbolic.publishedRun).identity =
      some "sapio-tee/program-oracle/1 nitro" ∧
    Refused symbolicEnclave Symbolic.publishedRun Symbolic.settings :=
  ⟨rfl, rfl, ((one_root symbolicEnclave Symbolic.publishedRun).2 _ rfl).2.2
    Symbolic.settings rfl⟩

end

end SapioTee.App
