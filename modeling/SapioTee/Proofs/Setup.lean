import SapioTee.Proofs.SetupSteps

/-!
# The invariants of setup

Three invariants carry everything, each on what the one before it gives.
`Guarded` is about the handlers alone: the gate has at most one holder, and
the state of a request's oneshot follows the place the request is at.
`Linked` ties the handlers to the signer thread: a job that is still to be
reported on belongs to a request that waits for it or has gone, and a
request that read `Ok` did so from the thread that holds its own oracle.
`Told` ties both to the history: who was started, which root was derived,
what the thread received, what was published.

The exclusion is the gate's and the agreement is the oneshot's. A request
between `derive_root` and its publication holds the gate, so while it runs
nothing else can publish or set the Ark signer; and it gets to publish only
by reading `Ok` from the oneshot it put into its own job, which the thread
sends for the one job it ever receives.

`RequestMoves` is what a step does to one request and its oneshot. Given
`Guarded` it says where the oneshot was, and from there on an invariant
about requests is a case analysis over it.
-/

namespace SapioTee.App

open Lib

section

variable {T : Types} {E : Enclave T} {w w' : World E} {a : Act}
  {es new : List (Event E)}

/-! ## The gate and the oneshots -/

/-- The request is past `try_lock` and has not returned. -/
def Handler.Holds : Handler E → Prop
  | .locked _ | .deriving _ | .installing _ _ | .published => True
  | .absent | .validated _ | .done => False

def Stage.Fits : Stage → Oneshot → Prop
  | .submitting, o => o = .unmade
  | .waiting, o => o ≠ .unmade ∧ o ≠ .receiverGone
  | .timedOut, o => o ≠ .unmade ∧ o ≠ .receiverGone
  | .bound, o => o = .receiverGone
  | .arkSet, o => o = .receiverGone

/-- The request owns the receiving half exactly while it waits for it. -/
def Handler.Fits : Handler E → Oneshot → Prop
  | .absent, o => o = .unmade
  | .validated _, o => o = .unmade
  | .locked _, o => o = .unmade
  | .deriving _, o => o = .unmade
  | .installing stage _, o => stage.Fits o
  | .published, o => o = .receiverGone
  | .done, o => o = .unmade ∨ o = .receiverGone

theorem Handler.Fits.waits {x : Handler E} {o : Oneshot}
    (h : x.Fits o) (hu : o ≠ .unmade) (hr : o ≠ .receiverGone) :
    ∃ stage i, x = .installing stage i ∧
      (stage = .waiting ∨ stage = .timedOut) := by
  cases x with
  | installing stage i =>
      cases stage with
      | submitting => exact absurd h hu
      | waiting => exact ⟨_, i, rfl, .inl rfl⟩
      | timedOut => exact ⟨_, i, rfl, .inr rfl⟩
      | bound => exact absurd h hr
      | arkSet => exact absurd h hr
  | published => exact absurd h hr
  | done =>
      rcases h with h | h
      · exact absurd h hu
      · exact absurd h hr
  | _ => exact absurd h hu

/-- Whatever comes while the request waits, it still waits for it. -/
theorem Handler.Fits.of_empty {x : Handler E} (h : x.Fits .empty)
    {o : Oneshot} (hu : o ≠ .unmade) (hr : o ≠ .receiverGone) : x.Fits o := by
  obtain ⟨stage, i, rfl, rfl | rfl⟩ := h.waits (by simp) (by simp)
  · exact ⟨hu, hr⟩
  · exact ⟨hu, hr⟩

theorem Handler.Fits.dropSender {x : Handler E} {o : Oneshot}
    (h : x.Fits o) : x.Fits o.dropSender := by
  cases o with
  | empty =>
      show x.Fits .senderGone
      exact h.of_empty (by simp) (by simp)
  | _ => exact h

theorem fits_dropReceiver (o : Oneshot) :
    (Handler.done : Handler E).Fits o.dropReceiver := by
  cases o with
  | unmade => exact .inl rfl
  | _ => exact .inr rfl

structure Guarded (w : World E) : Prop where
  unused : ∀ k, w.next ≤ k → w.handlers k = .absent
  gate : ∀ k, w.gate = some k ↔ (w.handlers k).Holds
  fits : ∀ k, (w.handlers k).Fits (w.ready k)

theorem guarded_start : Guarded (World.start : World E) where
  unused := fun _ _ => rfl
  gate := fun k => by simp [World.start, Handler.Holds]
  fits := fun _ => rfl

/-- A request that ends was past `try_lock`, or is refused there. -/
theorem Leaves.live {k : Nat} (h : Leaves w k a new) :
    (w.handlers k).Holds ∨
      (∃ settings, w.handlers k = .validated settings) ∧ w.gate ≠ none := by
  cases h with
  | busy h hg => exact .inr ⟨⟨_, h⟩, hg⟩
  | conflict h _ | noNsm h _ _ | noRequest h _ _ | noRoot h _
  | noInstall h _ _ | noPlace h _ | notBound h _ | gaveUp h | arkTaken h _
  | identityTaken h _ | responded h | droppedDeriving h | droppedWaiting h =>
      rw [h]
      exact .inl trivial

theorem Leaves.present {k : Nat} (h : Leaves w k a new) :
    w.handlers k ≠ .absent := by
  intro habsent
  rcases h.live with hh | ⟨⟨settings, hh⟩, -⟩
  · rw [habsent] at hh
    exact hh
  · rw [habsent] at hh
    cases hh

/-- One step, seen from one request: where it and its oneshot were, and where
they are now. -/
inductive RequestMoves (w w' : World E) (a : Act) (new : List (Event E))
    (k : Nat) : Handler E → Oneshot → Handler E → Oneshot → Prop where
  | same {x : Handler E} {o : Oneshot} : RequestMoves w w' a new k x o x o
  | refused (hk : k < w'.next) :
      RequestMoves w w' a new k .absent .unmade .done .unmade
  | started {settings : Settings} (hk : k < w'.next)
      (he : new = [.started k settings]) :
      RequestMoves w w' a new k .absent .unmade (.validated settings) .unmade
  | locked {settings : Settings} :
      RequestMoves w w' a new k (.validated settings) .unmade
        (.locked settings) .unmade
  | asked {settings : Settings} (hi : w'.identity = none) :
      RequestMoves w w' a new k (.locked settings) .unmade
        (.deriving settings) .unmade
  | built {settings : Settings} {answer : Except String SharedSecretOutput}
      {root : T.Xpriv} {i : Install E}
      (hr : deriveFinish E.keys settings answer = .ok root)
      (hb : install E root settings = .ok i)
      (he : new = [.derived k answer root]) :
      RequestMoves w w' a new k (.deriving settings) .unmade
        (.installing .submitting i) .unmade
  | submitted {i : Install E} :
      RequestMoves w w' a new k (.installing .submitting i) .unmade
        (.installing .waiting i) .empty
  | confirmed {i : Install E} :
      RequestMoves w w' a new k (.installing .waiting i) (.sent (.ok ()))
        (.installing .bound i) .receiverGone
  | timedOut {i : Install E} :
      RequestMoves w w' a new k (.installing .waiting i) .empty
        (.installing .timedOut i) .empty
  | arkSet {i : Install E} (ha : w'.arkSigner = some i.arkSigner) :
      RequestMoves w w' a new k (.installing .bound i) .receiverGone
        (.installing .arkSet i) .receiverGone
  | published {i : Install E} (hi : w'.identity = some i.identity) :
      RequestMoves w w' a new k (.installing .arkSet i) .receiverGone
        .published .receiverGone
  | left {x : Handler E} {o : Oneshot} (h : Leaves w k a new) :
      RequestMoves w w' a new k x o .done o.dropReceiver
  | failed {x : Handler E} {job : SignerJob E} {text : String}
      (hk : job.ready = k) (h : w.thread = .binding job)
      (h' : w'.thread = .failing (some job)) (hw : w'.work = w.work) :
      RequestMoves w w' a new k x .empty x (.sent (.error text))
  | reported {x : Handler E} {job : SignerJob E}
      (hk : job.ready = k) (h : w.thread = .reporting job)
      (h' : w'.thread = .serving job) (hw : w'.work = w.work) :
      RequestMoves w w' a new k x .empty x (.sent (.ok ()))
  | unsent {x : Handler E} {o : Oneshot} {received : Option (SignerJob E)}
      (h' : w'.thread = .exited received) (hw : w'.work = none) :
      RequestMoves w w' a new k x o x o.dropSender

section

variable {j k : Nat} {x : Handler E} {o : Oneshot}

theorem requestMoves_update
    (h : RequestMoves w w' a new j (w.handlers j) (w.ready j) x o) :
    RequestMoves w w' a new k (w.handlers k) (w.ready k)
      (Function.update w.handlers j x k) (Function.update w.ready j o k) := by
  by_cases hk : k = j
  · subst hk
    rw [Function.update_self, Function.update_self]
    exact h
  · rw [Function.update_of_ne hk, Function.update_of_ne hk]
    exact .same

theorem requestMoves_handler
    (h : RequestMoves w w' a new j (w.handlers j) (w.ready j) x (w.ready j)) :
    RequestMoves w w' a new k (w.handlers k) (w.ready k)
      (Function.update w.handlers j x k) (w.ready k) := by
  have hboth := @requestMoves_update _ _ _ _ _ _ j k _ _ h
  rwa [Function.update_eq_self] at hboth

theorem requestMoves_ready
    (h : RequestMoves w w' a new j (w.handlers j) (w.ready j)
      (w.handlers j) o) :
    RequestMoves w w' a new k (w.handlers k) (w.ready k)
      (w.handlers k) (Function.update w.ready j o k) := by
  have hboth := @requestMoves_update _ _ _ _ _ _ j k _ _ h
  rwa [Function.update_eq_self] at hboth

end

theorem Guarded.fits_of (hg : Guarded w) {k : Nat} {x : Handler E}
    (hk : w.handlers k = x) : x.Fits (w.ready k) := by
  have hf := hg.fits k
  rwa [hk] at hf

theorem Moves.request (h : Moves w a w' new) (hg : Guarded w) (k : Nat) :
    RequestMoves w w' a new k (w.handlers k) (w.ready k) (w'.handlers k)
      (w'.ready k) := by
  have hnext := hg.unused w.next (Nat.le_refl _)
  cases h with
  | refuse h =>
      refine requestMoves_handler ?_
      rw [show w.ready w.next = .unmade from hg.fits_of hnext, hnext]
      exact .refused (Nat.lt_succ_self _)
  | start h =>
      refine requestMoves_handler ?_
      rw [show w.ready w.next = .unmade from hg.fits_of hnext, hnext]
      exact .started (Nat.lt_succ_self _) rfl
  | @lock j _ h hgate =>
      refine requestMoves_handler ?_
      rw [show w.ready j = .unmade from hg.fits_of h, h]
      exact .locked
  | @ask j _ _ h hi hn hr =>
      refine requestMoves_handler ?_
      rw [show w.ready j = .unmade from hg.fits_of h, h]
      exact .asked hi
  | @install j _ _ _ _ h hr hb =>
      refine requestMoves_handler ?_
      rw [show w.ready j = .unmade from hg.fits_of h, h]
      exact .built hr hb rfl
  | @submit j _ h hc hw =>
      refine requestMoves_update ?_
      rw [show w.ready j = .unmade from hg.fits_of h, h]
      exact .submitted
  | confirm h hr =>
      refine requestMoves_update ?_
      rw [h, hr]
      exact .confirmed
  | timeout h hr =>
      refine requestMoves_handler ?_
      rw [h, hr]
      exact .timedOut
  | @setArk j _ h ha =>
      refine requestMoves_handler ?_
      rw [show w.ready j = .receiverGone from hg.fits_of h, h]
      exact .arkSet rfl
  | @publish j _ h hi =>
      refine requestMoves_handler ?_
      rw [show w.ready j = .receiverGone from hg.fits_of h, h]
      exact .published rfl
  | leave h => exact requestMoves_update (.left h)
  | bindFailed h hr =>
      refine requestMoves_ready ?_
      rw [hr]
      exact .failed rfl h rfl rfl
  | report h hr =>
      refine requestMoves_ready ?_
      rw [hr]
      exact .reported rfl h rfl rfl
  | exitQueued h hw => exact requestMoves_ready (.unsent rfl rfl)
  | stay | ready _ | noRuntime _ | receive _ _ | bind _ | bindUnheard _ _
  | reportUnheard _ _ | stop _ | exit _ _ => exact .same

theorem Moves.next_le (h : Moves w a w' new) : w.next ≤ w'.next := by
  cases h with
  | refuse h => exact Nat.le_succ _
  | start h => exact Nat.le_succ _
  | _ => exact Nat.le_refl _

theorem Guarded.unused_step (hg : Guarded w) (h : Moves w a w' new) (k : Nat)
    (hk : w'.next ≤ k) : w'.handlers k = .absent := by
  have hreq := h.request hg k
  have habsent := hg.unused k (Nat.le_trans h.next_le hk)
  rw [habsent] at hreq
  generalize w.ready k = o, w'.handlers k = x', w'.ready k = o' at hreq
  cases hreq with
  | refused hlt => omega
  | started hlt he => omega
  | left h => exact absurd habsent h.present
  | _ => rfl

theorem Guarded.fits_step (hg : Guarded w) (h : Moves w a w' new) (k : Nat) :
    (w'.handlers k).Fits (w'.ready k) := by
  have hreq := h.request hg k
  have hf := hg.fits k
  generalize w.handlers k = x, w.ready k = o, w'.handlers k = x',
    w'.ready k = o' at hreq hf
  cases hreq with
  | same => exact hf
  | refused hk => exact .inl rfl
  | submitted => exact ⟨by simp, by simp⟩
  | timedOut => exact ⟨by simp, by simp⟩
  | left h => exact fits_dropReceiver o
  | failed hk h h' hw => exact hf.of_empty (by simp) (by simp)
  | reported hk h h' hw => exact hf.of_empty (by simp) (by simp)
  | unsent h' hw => exact hf.dropSender
  | started _ _ | locked | asked _ | built _ _ _ | confirmed | arkSet _
  | published _ => rfl

/-- A request that moves on keeps the gate it has. -/
theorem gate_update {g : Option Nat} {f : Nat → Handler E}
    (h : ∀ k, g = some k ↔ (f k).Holds) {j : Nat} {x : Handler E}
    (hx : (f j).Holds ↔ x.Holds) (k : Nat) :
    g = some k ↔ (Function.update f j x k).Holds := by
  by_cases hk : k = j
  · subst hk
    rw [Function.update_self, h k, hx]
  · rw [Function.update_of_ne hk, h k]

theorem Guarded.gate_step (hg : Guarded w) (h : Moves w a w' new) (k : Nat) :
    w'.gate = some k ↔ (w'.handlers k).Holds := by
  have hnext := hg.unused w.next (Nat.le_refl _)
  cases h with
  | refuse h => exact gate_update hg.gate (by rw [hnext]; exact Iff.rfl) k
  | start h => exact gate_update hg.gate (by rw [hnext]; exact Iff.rfl) k
  | @lock j _ h hnone =>
      show some j = some k ↔ (Function.update w.handlers j _ k).Holds
      by_cases hk : k = j
      · subst hk
        rw [Function.update_self]
        exact ⟨fun _ => trivial, fun _ => rfl⟩
      · rw [Function.update_of_ne hk, ← hg.gate k, hnone]
        simp [Ne.symm hk]
  | @leave j _ _ h =>
      show (if w.gate = some j then none else w.gate) = some k ↔
        (Function.update w.handlers j .done k).Holds
      by_cases hk : k = j
      · subst hk
        rw [Function.update_self]
        split
        · exact ⟨nofun, nofun⟩
        · next hne => exact ⟨fun heq => absurd heq hne, nofun⟩
      · rw [Function.update_of_ne hk, ← hg.gate k]
        split
        · next heq => simp [heq, Ne.symm hk]
        · exact Iff.rfl
  | ask h _ _ _ => exact gate_update hg.gate (by rw [h]; exact Iff.rfl) k
  | install h _ _ => exact gate_update hg.gate (by rw [h]; exact Iff.rfl) k
  | submit h _ _ => exact gate_update hg.gate (by rw [h]; exact Iff.rfl) k
  | confirm h _ => exact gate_update hg.gate (by rw [h]; exact Iff.rfl) k
  | timeout h _ => exact gate_update hg.gate (by rw [h]; exact Iff.rfl) k
  | setArk h _ => exact gate_update hg.gate (by rw [h]; exact Iff.rfl) k
  | publish h _ => exact gate_update hg.gate (by rw [h]; exact Iff.rfl) k
  | _ => exact hg.gate k

theorem Guarded.step (hg : Guarded w) (h : Moves w a w' new) :
    Guarded w' where
  unused := hg.unused_step h
  gate := hg.gate_step h
  fits := hg.fits_step h

/-- Two requests past `try_lock` are one. -/
theorem Guarded.alone (hg : Guarded w) {j k : Nat}
    (hj : (w.handlers j).Holds) (hk : (w.handlers k).Holds) : j = k := by
  have heq := ((hg.gate j).mpr hj).symm.trans ((hg.gate k).mpr hk)
  injection heq

/-! ## The handlers and the thread -/

/-- The job is still to be reported on. -/
def Held (w : World E) (job : SignerJob E) : Prop :=
  w.work = some job ∨ w.thread = .binding job ∨ w.thread = .reporting job

structure Linked (w : World E) : Prop where
  awaited : ∀ job, Held w job → w.ready job.ready = .receiverGone ∨
    (w.ready job.ready = .empty ∧ ∃ stage i,
      w.handlers job.ready = .installing stage i ∧ i.oracle = job.oracle)
  made : ∀ job, w.thread.job = some job → w.ready job.ready ≠ .unmade
  apart : ∀ q t, w.work = some q → w.thread.job = some t → q.ready ≠ t.ready
  served : ∀ job, w.thread = .serving job →
    w.ready job.ready = .sent (.ok ()) ∨ w.ready job.ready = .receiverGone
  confirmed : ∀ k stage i, w.handlers k = .installing stage i →
    w.ready k = .sent (.ok ()) ∨ stage = .bound ∨ stage = .arkSet →
    w.thread.job = some ⟨i.oracle, k⟩

theorem linked_start : Linked (World.start : World E) where
  awaited := by simp [Held, World.start]
  made := by simp [World.start, Thread.job]
  apart := by simp [World.start]
  served := by simp [World.start]
  confirmed := by simp [World.start]

/-- One step, seen from the thread. -/
inductive ThreadMoves (w w' : World E) : Thread E → Thread E → Prop where
  | same {t : Thread E} : ThreadMoves w w' t t
  | ready : ThreadMoves w w' .starting .receiving
  | noRuntime : ThreadMoves w w' .starting (.failing none)
  | received {job : SignerJob E} (hw : w.work = some job)
      (hw' : w'.work = none) :
      ThreadMoves w w' .receiving (.binding job)
  | bound {job : SignerJob E} :
      ThreadMoves w w' (.binding job) (.reporting job)
  | reported {job : SignerJob E} (hr : w.ready job.ready = .empty)
      (hr' : w'.ready job.ready = .sent (.ok ())) :
      ThreadMoves w w' (.reporting job) (.serving job)
  | failed {job : SignerJob E} {t : Thread E}
      (ht : t = .binding job ∨ t = .reporting job ∨ t = .serving job) :
      ThreadMoves w w' t (.failing (some job))
  | exited {job : Option (SignerJob E)} :
      ThreadMoves w w' (.failing job) (.exited job)

theorem Moves.thread (h : Moves w a w' new) :
    ThreadMoves w w' w.thread w'.thread := by
  cases h with
  | ready h =>
      rw [h]
      exact .ready
  | noRuntime h =>
      rw [h]
      exact .noRuntime
  | receive h hw =>
      rw [h]
      exact .received hw rfl
  | bind h =>
      rw [h]
      exact .bound
  | bindFailed h hr => exact .failed (.inl h)
  | bindUnheard h hr => exact .failed (.inl h)
  | report h hr =>
      rw [h]
      exact .reported hr (Function.update_self _ _ _)
  | reportUnheard h hr => exact .failed (.inr (.inl h))
  | stop h => exact .failed (.inr (.inr h))
  | exit h hw =>
      rw [h]
      exact .exited
  | exitQueued h hw =>
      rw [h]
      exact .exited
  | _ => exact .same

/-- The thread keeps the job it received. -/
theorem Moves.job (h : Moves w a w' new) {job : SignerJob E}
    (hj : w.thread.job = some job) : w'.thread.job = some job := by
  have hthread := h.thread
  generalize w.thread = t, w'.thread = t' at hthread hj
  cases hthread with
  | same => exact hj
  | bound => exact hj
  | reported hr hr' => exact hj
  | failed ht => rcases ht with rfl | rfl | rfl <;> exact hj
  | exited => exact hj
  | ready => cases hj
  | noRuntime => cases hj
  | received hw hw' => cases hj

/-- It has one, or has just got it from the channel. -/
theorem Moves.job_cases (h : Moves w a w' new) {job : SignerJob E}
    (hj : w'.thread.job = some job) : w.thread.job = some job ∨
      (w.work = some job ∧ w'.work = none) := by
  have hthread := h.thread
  generalize w.thread = t, w'.thread = t' at hthread hj
  cases hthread with
  | same => exact .inl hj
  | bound => exact .inl hj
  | reported hr hr' => exact .inl hj
  | failed ht => rcases ht with rfl | rfl | rfl <;> exact .inl hj
  | exited => exact .inl hj
  | ready => cases hj
  | noRuntime => cases hj
  | received hw hw' =>
      injection hj with hj
      subst hj
      exact .inr ⟨hw, hw'⟩

/-- What is in the channel was there, or its request has just put it in. -/
theorem Moves.work_cases (h : Moves w a w' new) {job : SignerJob E}
    (hj : w'.work = some job) : w.work = some job ∨
      (w'.thread = w.thread ∧ ∃ i,
        w.handlers job.ready = .installing .submitting i ∧
        w'.handlers job.ready = .installing .waiting i ∧
        w'.ready job.ready = .empty ∧ i.oracle = job.oracle) := by
  cases h with
  | @submit k i h hc hw =>
      injection hj with hj
      subst hj
      exact .inr ⟨rfl, i, h, Function.update_self _ _ _,
        Function.update_self _ _ _, rfl⟩
  | receive h hw => cases hj
  | exitQueued h hw => cases hj
  | _ => exact .inl hj

/-- What is in the channel stays, goes to the thread or ends with it. -/
theorem Moves.work (h : Moves w a w' new) {job : SignerJob E}
    (hw : w.work = some job) : w'.work = some job ∨
      w'.thread = .binding job ∨ ∃ received, w'.thread = .exited received := by
  cases h with
  | submit h hc hnone =>
      rw [hw] at hnone
      cases hnone
  | receive h hwork =>
      rw [hw] at hwork
      injection hwork with hwork
      subst hwork
      exact .inr (.inl rfl)
  | exitQueued h hwork => exact .inr (.inr ⟨_, rfl⟩)
  | _ => exact .inl hw

/-- A job to be reported on was one before, or has just been put in. -/
theorem Moves.held_cases (h : Moves w a w' new) {job : SignerJob E}
    (hj : Held w' job) : Held w job ∨ ∃ i,
      w'.handlers job.ready = .installing .waiting i ∧
      w'.ready job.ready = .empty ∧ i.oracle = job.oracle := by
  rcases hj with hj | hj
  · rcases h.work_cases hj with hw | ⟨-, i, -, hi⟩
    · exact .inl (.inl hw)
    · exact .inr ⟨i, hi⟩
  · left
    have hthread := h.thread
    simp only [Held]
    generalize w.thread = t, w'.thread = t' at hthread hj
    cases hthread with
    | same => exact .inr hj
    | received hw hw' =>
        rcases hj with hj | hj
        · injection hj with hj
          subst hj
          exact .inl hw
        · cases hj
    | bound =>
        rcases hj with hj | hj
        · cases hj
        · injection hj with hj
          subst hj
          exact .inr (.inl rfl)
    | _ => rcases hj with hj | hj <;> cases hj

/-- The thread reports on its own job and not on the one in the channel. -/
theorem Linked.unheld (hl : Linked w) {job t : SignerJob E}
    (ht : w.thread.job = some t) (hk : t.ready = job.ready)
    (hw : w'.work = w.work)
    (hthread : w'.thread ≠ .binding job ∧ w'.thread ≠ .reporting job) :
    ¬ Held w' job := by
  rintro (hj | hj | hj)
  · rw [hw] at hj
    exact hl.apart job t hj ht hk.symm
  · exact hthread.1 hj
  · exact hthread.2 hj

/-- A receiver that is gone stays gone. -/
theorem Moves.receiverGone (h : Moves w a w' new) (hg : Guarded w) {k : Nat}
    (hk : w.ready k = .receiverGone) : w'.ready k = .receiverGone := by
  have hreq := h.request hg k
  rw [hk] at hreq
  generalize w.handlers k = x, w'.handlers k = x', w'.ready k = o' at hreq
  cases hreq <;> rfl

/-- A job enters the channel with the oneshot its request just made, and
moves to the thread unchanged; a request that leaves takes its receiver
along. -/
theorem Linked.awaited_step (hl : Linked w) (hg : Guarded w)
    (h : Moves w a w' new) (job : SignerJob E) (hj : Held w' job) :
    w'.ready job.ready = .receiverGone ∨
    (w'.ready job.ready = .empty ∧ ∃ stage i,
      w'.handlers job.ready = .installing stage i ∧ i.oracle = job.oracle) := by
  have hreq := h.request hg job.ready
  rcases h.held_cases hj with hold | ⟨i, hk, hr, ho⟩
  · rcases hl.awaited job hold with hgone | ⟨hempty, stage, i, hk, ho⟩
    · exact .inl (h.receiverGone hg hgone)
    · rw [hk, hempty] at hreq
      generalize hx' : w'.handlers job.ready = x', w'.ready job.ready = o'
        at hreq
      cases hreq with
      | same => exact .inr ⟨rfl, stage, i, rfl, ho⟩
      | timedOut => exact .inr ⟨rfl, _, i, rfl, ho⟩
      | left h => exact .inl rfl
      | failed hk h h' hw =>
          refine absurd hj (hl.unheld (by rw [h]; rfl) hk hw ?_)
          rw [h']
          exact ⟨nofun, nofun⟩
      | reported hk h h' hw =>
          refine absurd hj (hl.unheld (by rw [h]; rfl) hk hw ?_)
          rw [h']
          exact ⟨nofun, nofun⟩
      | unsent h' hw =>
          rcases hj with hj | hj | hj
          · rw [hw] at hj
            cases hj
          · rw [h'] at hj
            cases hj
          · rw [h'] at hj
            cases hj
  · exact .inr ⟨hr, _, i, hk, ho⟩

/-- A oneshot is made once. -/
theorem Moves.made (h : Moves w a w' new) (hg : Guarded w) {k : Nat}
    (hk : w.ready k ≠ .unmade) : w'.ready k ≠ .unmade := by
  have hreq := h.request hg k
  generalize w.handlers k = x, w.ready k = o, w'.handlers k = x',
    w'.ready k = o' at hreq hk
  cases hreq with
  | same => exact hk
  | left h => cases o <;> simp_all [Oneshot.dropReceiver]
  | unsent h' hw => cases o <;> simp_all [Oneshot.dropSender]
  | _ => simp_all

theorem Linked.made_step (hl : Linked w) (hg : Guarded w)
    (h : Moves w a w' new) (job : SignerJob E)
    (hj : w'.thread.job = some job) : w'.ready job.ready ≠ .unmade := by
  refine h.made hg ?_
  rcases h.job_cases hj with hold | ⟨hw, -⟩
  · exact hl.made job hold
  · rcases hl.awaited job (.inl hw) with hgone | ⟨hempty, -⟩
    · simp [hgone]
    · simp [hempty]

theorem Linked.apart_step (hl : Linked w) (hg : Guarded w)
    (h : Moves w a w' new) (q t : SignerJob E) (hq : w'.work = some q)
    (ht : w'.thread.job = some t) : q.ready ≠ t.ready := by
  rcases h.work_cases hq with hw | ⟨hthread, i, hk, -⟩
  · rcases h.job_cases ht with hold | ⟨-, hnone⟩
    · exact hl.apart q t hw hold
    · rw [hnone] at hq
      cases hq
  · -- Its oneshot was made in this step, the thread's before.
    rw [hthread] at ht
    intro heq
    have hunmade : w.ready q.ready = .unmade := hg.fits_of hk
    rw [heq] at hunmade
    exact hl.made t ht hunmade

theorem Linked.served_step (hl : Linked w) (hg : Guarded w)
    (h : Moves w a w' new) (job : SignerJob E)
    (hj : w'.thread = .serving job) :
    w'.ready job.ready = .sent (.ok ()) ∨
      w'.ready job.ready = .receiverGone := by
  have hserving : w.thread = .serving job ∨
      w'.ready job.ready = .sent (.ok ()) := by
    have hthread := h.thread
    rw [hj] at hthread
    generalize w.thread = t at hthread
    cases hthread with
    | same => exact .inl rfl
    | reported hr hr' => exact .inr hr'
  rcases hserving with hold | hsent
  · have hreq := h.request hg job.ready
    rcases hl.served job hold with ho | ho <;> rw [ho] at hreq <;>
      generalize w.handlers job.ready = x, w'.handlers job.ready = x',
        w'.ready job.ready = o' at hreq <;>
      cases hreq <;> first | exact .inl rfl | exact .inr rfl
  · exact .inl hsent

/-- `Ok` is in the oneshot of the job the thread has. -/
theorem Linked.confirmed_step (hl : Linked w) (hg : Guarded w)
    (h : Moves w a w' new) (k : Nat) (stage : Stage) (i : Install E)
    (hk : w'.handlers k = .installing stage i)
    (hr : w'.ready k = .sent (.ok ()) ∨ stage = .bound ∨ stage = .arkSet) :
    w'.thread.job = some ⟨i.oracle, k⟩ := by
  have hreq := h.request hg k
  have hc := hl.confirmed k
  rw [hk] at hreq
  generalize hx : w.handlers k = x, ho : w.ready k = o, w'.ready k = o'
    at hreq hr
  cases hreq with
  | same => exact h.job (hc stage i hx (by rwa [ho]))
  | built _ _ _ => simp at hr
  | submitted => simp at hr
  | confirmed => exact h.job (hc .waiting i hx (.inl ho))
  | timedOut => simp at hr
  | arkSet ha => exact h.job (hc .bound i hx (.inr (.inl rfl)))
  | failed hkey h₁ h' hw =>
      rcases hr with hr | hr
      · cases hr
      · exact h.job (hc stage i hx (.inr hr))
  | @reported _ job hkey h₁ h' hw =>
      -- The oneshot written to is the job's own, so its request is the one
      -- the job came from.
      subst hkey
      rcases hl.awaited job (.inr (.inr h₁))
        with hgone | ⟨-, stage', i', hk', horacle⟩
      · rw [ho] at hgone
        cases hgone
      · rw [hx] at hk'
        injection hk' with _ hi
        subst hi
        rw [h']
        show some job = some ⟨i.oracle, job.ready⟩
        rw [horacle]
  | unsent h' hw =>
      refine h.job (hc stage i hx ?_)
      rcases hr with hr | hr
      · left
        rw [ho]
        cases o <;> first | exact hr | cases hr
      · exact .inr hr

theorem Linked.step (hl : Linked w) (hg : Guarded w) (h : Moves w a w' new) :
    Linked w' where
  awaited := hl.awaited_step hg h
  made := hl.made_step hg h
  apart := hl.apart_step hg h
  served := hl.served_step hg h
  confirmed := hl.confirmed_step hg h

/-! ## The history -/

/-- The jobs the thread received, oldest first. -/
def receivedJobs (es : List (Event E)) : List (SignerJob E) :=
  es.filterMap fun
    | .received job => some job
    | _ => none

/-- The requests that set the identity, and what they set. -/
def publications (es : List (Event E)) : List (Nat × String) :=
  es.filterMap fun
    | .published k identity => some (k, identity)
    | _ => none

/-- The settings the requests came with. -/
def startedSettings (es : List (Event E)) : List Settings :=
  es.filterMap fun
    | .started _ settings => some settings
    | _ => none

theorem mem_startedSettings {k : Nat} {settings : Settings}
    (h : .started k settings ∈ es) : settings ∈ startedSettings es :=
  List.mem_filterMap.mpr ⟨_, h, rfl⟩

theorem receivedJobs_append (es new : List (Event E)) :
    receivedJobs (es ++ new) = receivedJobs es ++ receivedJobs new :=
  List.filterMap_append

theorem publications_append (es new : List (Event E)) :
    publications (es ++ new) = publications es ++ publications new :=
  List.filterMap_append

theorem Leaves.quiet {k : Nat} (h : Leaves w k a new) :
    receivedJobs new = [] ∧ publications new = [] := by
  cases h <;> exact ⟨rfl, rfl⟩

/-- The settings a request came with, while it still has them. -/
def Handler.settings : Handler E → Option Settings
  | .validated settings | .locked settings | .deriving settings =>
      some settings
  | .installing _ i => some i.settings
  | .absent | .published | .done => none

/-- The locals of `install` are made from this root, which KMS's answer to
this request gave. -/
def Derived (es : List (Event E)) (k : Nat) (i : Install E) : Prop :=
  ∃ answer, .derived k answer i.root ∈ es ∧
    deriveFinish E.keys i.settings answer = .ok i.root

theorem Derived.mono {k : Nat} {i : Install E} (h : Derived es k i)
    (new : List (Event E)) : Derived (es ++ new) k i := by
  obtain ⟨answer, hmem, hroot⟩ := h
  exact ⟨answer, List.mem_append_left _ hmem, hroot⟩

theorem install_ok {root : T.Xpriv} {settings : Settings} {i : Install E}
    (h : install E root settings = .ok i) :
    i.root = root ∧ i.settings = settings := by
  simp only [install] at h
  split at h
  · cases h
  · split at h
    · cases h
    · split at h
      · cases h
      · injection h with h
        subst h
        exact ⟨rfl, rfl⟩

/-- Everything there is to a publication was made for one request. -/
structure Publication (w : World E) (es : List (Event E)) (k : Nat)
    (i : Install E) : Prop where
  started : .started k i.settings ∈ es
  derived : Derived es k i
  published : .published k i.identity ∈ es
  identity : w.identity = some i.identity
  arkSigner : w.arkSigner = some i.arkSigner
  received : w.thread.job = some ⟨i.oracle, k⟩

/-- The request has asked KMS and not published. -/
def Handler.Underway (x : Handler E) : Prop :=
  (∃ settings, x = .deriving settings) ∨ ∃ stage i, x = .installing stage i

theorem Handler.Underway.holds {x : Handler E} (h : x.Underway) :
    x.Holds := by
  rcases h with ⟨settings, rfl⟩ | ⟨stage, i, rfl⟩ <;> trivial

structure Told (w : World E) (es : List (Event E)) : Prop where
  received : receivedJobs es = w.thread.job.toList
  published : (publications es).map Prod.snd = w.identity.toList
  started : ∀ k settings, (w.handlers k).settings = some settings →
    .started k settings ∈ es
  derived : ∀ k stage i, w.handlers k = .installing stage i → Derived es k i
  bare : ∀ k, (w.handlers k).Underway → w.identity = none
  arkSet : ∀ k i, w.handlers k = .installing .arkSet i →
    w.arkSigner = some i.arkSigner
  ark : w.arkSigner ≠ none → w.identity = none →
    ∃ k i, w.handlers k = .installing .arkSet i
  publication : w.identity ≠ none → ∃ k i, Publication w es k i
  answered : ∀ k reply, .answered k reply ∈ es → k < w.next

theorem told_start : Told (World.start : World E) [] where
  received := rfl
  published := rfl
  started := by simp [World.start, Handler.settings]
  derived := by simp [World.start]
  bare := by simp [World.start, Handler.Underway]
  arkSet := by simp [World.start]
  ark := by simp [World.start]
  publication := by simp [World.start]
  answered := by simp

/-- The identity is written once, by a request that set the Ark signer. -/
theorem Moves.identity_cases (h : Moves w a w' new) :
    w'.identity = w.identity ∨ ∃ k i, w.identity = none ∧
      w.handlers k = .installing .arkSet i ∧
      w'.handlers = Function.update w.handlers k .published ∧
      w'.identity = some i.identity ∧ w'.arkSigner = w.arkSigner ∧
      w'.thread = w.thread ∧ new = [.published k i.identity] := by
  cases h with
  | @publish k i h hi => exact .inr ⟨k, i, hi, h, rfl, rfl, rfl, rfl, rfl⟩
  | _ => exact .inl rfl

theorem Moves.identity (h : Moves w a w' new) {text : String}
    (hi : w.identity = some text) : w'.identity = some text := by
  rcases h.identity_cases with hsame | ⟨_, _, hnone, _⟩
  · rw [hsame, hi]
  · rw [hnone] at hi
    cases hi

theorem Moves.identity_none (h : Moves w a w' new) (hi : w'.identity = none) :
    w.identity = none := by
  cases hid : w.identity with
  | none => rfl
  | some text =>
      rw [h.identity hid] at hi
      cases hi

/-- The Ark signer is written once, by a request that read `Ok`. -/
theorem Moves.ark_cases (h : Moves w a w' new) :
    w'.arkSigner = w.arkSigner ∨ ∃ k i, w.arkSigner = none ∧
      w.handlers k = .installing .bound i ∧
      w'.handlers k = .installing .arkSet i := by
  cases h with
  | @setArk k i h ha => exact .inr ⟨k, i, ha, h, Function.update_self _ _ _⟩
  | _ => exact .inl rfl

theorem Told.received_step (ht : Told w es) (h : Moves w a w' new) :
    receivedJobs (es ++ new) = w'.thread.job.toList := by
  rw [receivedJobs_append, ht.received]
  cases h with
  | leave h => rw [h.quiet.1, List.append_nil]
  | receive h hw | ready h | noRuntime h | bind h | bindFailed h hr
  | bindUnheard h hr | report h hr | reportUnheard h hr | stop h =>
      rw [h]
      rfl
  | exit h hw | exitQueued h hw =>
      rw [h]
      exact List.append_nil _
  | _ => exact List.append_nil _

theorem Told.published_step (ht : Told w es) (h : Moves w a w' new) :
    (publications (es ++ new)).map Prod.snd = w'.identity.toList := by
  rw [publications_append, List.map_append, ht.published]
  cases h with
  | leave h => rw [h.quiet.2, List.map_nil, List.append_nil]
  | publish h hi =>
      rw [hi]
      rfl
  | _ => exact List.append_nil _

theorem Told.started_step (ht : Told w es) (hg : Guarded w)
    (h : Moves w a w' new) (k : Nat) (settings : Settings)
    (hk : (w'.handlers k).settings = some settings) :
    .started k settings ∈ es ++ new := by
  have hreq := h.request hg k
  have hs := ht.started k settings
  generalize w.handlers k = x, w.ready k = o, w'.handlers k = x',
    w'.ready k = o' at hreq hk hs
  cases hreq with
  | started hlt he =>
      injection hk with hk
      rw [he, hk]
      simp
  | built hr hb he =>
      rw [← (install_ok hb).2] at hs
      exact List.mem_append_left _ (hs hk)
  | refused hlt => cases hk
  | published hi => cases hk
  | left h => cases hk
  | _ => exact List.mem_append_left _ (hs hk)

theorem Told.derived_step (ht : Told w es) (hg : Guarded w)
    (h : Moves w a w' new) (k : Nat) (stage : Stage) (i : Install E)
    (hk : w'.handlers k = .installing stage i) : Derived (es ++ new) k i := by
  have hreq := h.request hg k
  have hd := ht.derived k
  rw [hk] at hreq
  generalize w.handlers k = x, w.ready k = o, w'.ready k = o' at hreq hd
  cases hreq with
  | @built settings answer root _ hr hb he =>
      obtain ⟨hroot, hset⟩ := install_ok hb
      refine ⟨answer, ?_, ?_⟩
      · rw [he, hroot]
        simp
      · rw [hset, hroot, hr]
  | _ => exact (hd _ i rfl).mono new

/-- A request between `derive_root` and its publication is alone there. -/
theorem Guarded.only (hg : Guarded w) {k : Nat} {stage : Stage}
    {i : Install E} (hk : w.handlers k = .installing stage i) (j : Nat)
    (hj : (w.handlers j).Holds) : j = k :=
  hg.alone hj (by rw [hk]; trivial)

theorem Told.bare_step (ht : Told w es) (hg : Guarded w)
    (h : Moves w a w' new) (k : Nat) (hk : (w'.handlers k).Underway) :
    w'.identity = none := by
  rcases h.identity_cases with hsame | ⟨j, i, -, hj, hhandlers, -⟩
  · have hreq := h.request hg k
    have hb := ht.bare k
    rw [← hsame] at hb
    generalize w.handlers k = x, w.ready k = o, w'.handlers k = x',
      w'.ready k = o' at hreq hk hb
    cases hreq with
    | asked hi => exact hi
    | same | failed _ _ _ _ | reported _ _ _ _ | unsent _ _ => exact hb hk
    | built _ _ _ => exact hb (.inl ⟨_, rfl⟩)
    | submitted | confirmed | timedOut | arkSet _ =>
        exact hb (.inr ⟨_, _, rfl⟩)
    | refused _ | started _ _ | locked | published _ | left _ =>
        exact absurd hk (by simp [Handler.Underway])
  · -- The request that publishes holds the gate, so this one is it.
    rw [hhandlers] at hk
    by_cases hjk : k = j
    · subst hjk
      rw [Function.update_self] at hk
      exact absurd hk (by simp [Handler.Underway])
    · rw [Function.update_of_ne hjk] at hk
      exact absurd (hg.only hj k hk.holds) hjk

theorem Told.arkSet_step (ht : Told w es) (hg : Guarded w)
    (h : Moves w a w' new) (k : Nat) (i : Install E)
    (hk : w'.handlers k = .installing .arkSet i) :
    w'.arkSigner = some i.arkSigner := by
  have hreq := h.request hg k
  have ha := ht.arkSet k i
  rw [hk] at hreq
  have hkeep : w.handlers k = .installing .arkSet i →
      w'.arkSigner = some i.arkSigner := by
    intro hold
    rcases h.ark_cases with hsame | ⟨j, i', -, hj, -⟩
    · rw [hsame, ha hold]
    · have heq := hg.only hold j (by rw [hj]; trivial)
      rw [heq, hold] at hj
      cases hj
  generalize hx : w.handlers k = x, w.ready k = o, w'.ready k = o' at hreq
  cases hreq with
  | arkSet hset => exact hset
  | _ => exact hkeep hx

/-- A request that set the Ark signer goes on to set the identity. -/
theorem Moves.arkSet (h : Moves w a w' new) (hg : Guarded w) {k : Nat}
    {i : Install E} (hk : w.handlers k = .installing .arkSet i)
    (hi : w'.identity = none) : w'.handlers k = .installing .arkSet i := by
  have hreq := h.request hg k
  have hnone := h.identity_none hi
  rw [hk] at hreq
  generalize w.ready k = o, w'.handlers k = x', w'.ready k = o' at hreq
  cases hreq with
  | published hset =>
      rw [hi] at hset
      cases hset
  | left hleft =>
      cases hleft with
      | identityTaken _ hid => exact absurd hnone hid
      | busy hx _ | conflict hx _ | noNsm hx _ _ | noRequest hx _ _
      | noRoot hx _ | noInstall hx _ _ | noPlace hx _ | notBound hx _
      | gaveUp hx | arkTaken hx _ | responded hx | droppedDeriving hx
      | droppedWaiting hx =>
          rw [hk] at hx
          cases hx
  | _ => rfl

theorem Told.ark_step (ht : Told w es) (hg : Guarded w) (h : Moves w a w' new)
    (ha : w'.arkSigner ≠ none) (hi : w'.identity = none) :
    ∃ k i, w'.handlers k = .installing .arkSet i := by
  rcases h.ark_cases with hsame | ⟨k, i, -, -, hk⟩
  · rw [hsame] at ha
    obtain ⟨k, i, hk⟩ := ht.ark ha (h.identity_none hi)
    exact ⟨k, i, h.arkSet hg hk hi⟩
  · exact ⟨k, i, hk⟩

/-- Once it is there, a publication is not touched again. -/
theorem Publication.step {k : Nat} {i : Install E} (hp : Publication w es k i)
    (h : Moves w a w' new) : Publication w' (es ++ new) k i where
  started := List.mem_append_left _ hp.started
  derived := hp.derived.mono new
  published := List.mem_append_left _ hp.published
  identity := h.identity hp.identity
  arkSigner := by
    rcases h.ark_cases with hsame | ⟨_, _, hnone, _⟩
    · rw [hsame, hp.arkSigner]
    · rw [hp.arkSigner] at hnone
      cases hnone
  received := h.job hp.received

theorem Told.publication_step (ht : Told w es) (hl : Linked w)
    (h : Moves w a w' new) (hi : w'.identity ≠ none) :
    ∃ k i, Publication w' (es ++ new) k i := by
  rcases h.identity_cases
    with hsame | ⟨k, i, -, hk, -, hid, hark, hthread, he⟩
  · rw [hsame] at hi
    obtain ⟨k, i, hp⟩ := ht.publication hi
    exact ⟨k, i, hp.step h⟩
  · refine ⟨k, i, ?_⟩
    exact
      { started := List.mem_append_left _ (ht.started k _ (by rw [hk]; rfl))
        derived := (ht.derived k _ i hk).mono _
        published := by simp [he]
        identity := hid
        arkSigner := hark.trans (ht.arkSet k i hk)
        received := by
          rw [hthread]
          exact hl.confirmed k _ i hk (.inr (.inr rfl)) }

/-- Only the request that ends is answered. -/
theorem Leaves.answered {j k : Nat} (h : Leaves w j a new)
    {reply : Except ApiError String} (hmem : .answered k reply ∈ new) :
    k = j := by
  cases h <;> simp_all

/-- A request is answered when it is refused at once, or when it ends. -/
theorem Moves.answered_cases (h : Moves w a w' new) {k : Nat}
    {reply : Except ApiError String} (hmem : .answered k reply ∈ new) :
    (k = w.next ∧ w'.next = w.next + 1) ∨ Leaves w k a new := by
  cases h with
  | refuse h =>
      simp only [List.mem_cons, reduceCtorEq, false_or, List.not_mem_nil,
        or_false] at hmem
      injection hmem with hk _
      exact .inl ⟨hk, rfl⟩
  | leave h =>
      have hk := h.answered hmem
      subst hk
      exact .inr h
  | _ => simp at hmem

theorem Told.answered_step (ht : Told w es) (hg : Guarded w)
    (h : Moves w a w' new) (k : Nat) (reply : Except ApiError String)
    (hmem : .answered k reply ∈ es ++ new) : k < w'.next := by
  rcases List.mem_append.mp hmem with hold | hnew
  · exact Nat.lt_of_lt_of_le (ht.answered k reply hold) h.next_le
  · rcases h.answered_cases hnew with ⟨hk, hnext⟩ | hleft
    · omega
    · have hle := h.next_le
      by_contra hlt
      exact hleft.present (hg.unused k (by omega))

theorem Told.step (ht : Told w es) (hg : Guarded w) (hl : Linked w)
    (h : Moves w a w' new) : Told w' (es ++ new) where
  received := ht.received_step h
  published := ht.published_step h
  started := ht.started_step hg h
  derived := ht.derived_step hg h
  bare := ht.bare_step hg h
  arkSet := ht.arkSet_step hg h
  ark := ht.ark_step hg h
  publication := ht.publication_step hl h
  answered := ht.answered_step hg h

/-- What holds in every state of every run. -/
structure Sound (w : World E) (es : List (Event E)) : Prop where
  guarded : Guarded w
  linked : Linked w
  told : Told w es

theorem Sound.step (hs : Sound w es) (h : Moves w a w' new) :
    Sound w' (es ++ new) where
  guarded := hs.guarded.step h
  linked := hs.linked.step hs.guarded h
  told := hs.told.step hs.guarded hs.linked h

theorem sound (E : Enclave T) (acts : List Act) :
    Sound ((app E).state acts) ((app E).trace acts) :=
  (app E).run_induct ⟨guarded_start, linked_start, told_start⟩
    (fun _ _ a hs => hs.step (step_moves _ a)) acts

end

end SapioTee.App
