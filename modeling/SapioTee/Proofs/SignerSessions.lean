import SapioTee.Proofs.SignerLedger

/-!
# What happens to a session depends on nothing else

Two results over whole runs. The first is the frame of every step: a prepare
adds at most its own entry and drops only what had expired at the time it
read, a finish or cancel removes at most what it names, everything else is
left alone; so a session stays as it was created until it is named or its
lifetime is over (`sessions_framed`). An id is only kept apart from the ids
in use at that reading, so the id of an expired entry may be drawn again.

The second compares what a caller is told with what the history says. A
finish is accepted exactly while its session is alive and unnamed, however
the map was pruned in between. A cancel does not look at the expiry, so it
tells an expired session that some prepare happened to prune from one that
is still lying in the map. The outcomes depend on the session alone in
exactly the runs where no cancel meets such an entry
(`independent_iff_cancelsAlive`).
-/

namespace SapioTee

open Lib

section

variable {T : Types}

/-! ## The frame of a step -/

/-- The second map is the first without what had expired at `now`. -/
def Dropped (now : Instant) (m m' : Sessions T) : Prop :=
  ∀ s, m'.lookup s = (m.lookup s).filter fun p => decide (now < p.expires)

/-- The events that end a prepare. -/
def Event.endsPrepare : Event T → Bool
  | .refused .. | .prepared .. => true
  | _ => false

/-- What the action `a` may do to the map after the run `acts`. -/
structure Framed (C : Crates T) (ark : ArkSigner T) (acts : List (Act T))
    (a : Act T) : Prop where
  prepared : ∀ {call request now response entry},
    .prepared call request now response entry
      ∈ ((signer C ark).step ((signer C ark).state acts) a).2 →
    (∀ p, ((signer C ark).state acts).pending.data.lookup response.session
      = some p → p.expires ≤ now) ∧
    ((signer C ark).state (acts ++ [a])).pending.data.lookup response.session
      = some entry ∧
    ∀ s, s ≠ response.session →
      ((signer C ark).state (acts ++ [a])).pending.data.lookup s
        = (((signer C ark).state acts).pending.data.lookup s).filter
          fun p => decide (now < p.expires)
  refused : ∀ {call request error},
    .refused call request error
      ∈ ((signer C ark).step ((signer C ark).state acts) a).2 →
    ((signer C ark).state (acts ++ [a])).pending.data
        = ((signer C ark).state acts).pending.data ∨
      ∃ grant now,
        ((signer C ark).state acts).calls call = .timed request grant now ∧
        Dropped now ((signer C ark).state acts).pending.data
          ((signer C ark).state (acts ++ [a])).pending.data
  named : ∀ {session}, a.names session = true →
    ((signer C ark).state (acts ++ [a])).pending.data.lookup session = none ∧
    ∀ s, s ≠ session →
      ((signer C ark).state (acts ++ [a])).pending.data.lookup s
        = ((signer C ark).state acts).pending.data.lookup s
  other : (∀ s, a.names s = false) →
    (∀ e ∈ ((signer C ark).step ((signer C ark).state acts) a).2,
      e.endsPrepare = false) →
    ((signer C ark).state (acts ++ [a])).pending.data
      = ((signer C ark).state acts).pending.data

/-- A session the run created is in the map as it was created unless a later
finish or cancel names it or its lifetime is over. -/
def Persists (C : Crates T) (self : ArkSigner T) (acts : List (Act T)) :
    Prop :=
  ∀ {before a after call request now response entry},
    acts = before ++ a :: after →
    .prepared call request now response entry
      ∈ ((signer C self).step ((signer C self).state before) a).2 →
    (∀ b ∈ after, b.names response.session = false) →
    ((signer C self).state acts).clock < now + sessionLifetime →
    ((signer C self).state acts).pending.data.lookup response.session
      = some entry

variable {C : Crates T} {self : ArkSigner T} {w w' : World T} {a : Act T}
  {es new : List (Event T)}

theorem dropped_prune (now : Instant) (m : Sessions T) :
    Dropped now m (prune now m) := fun s => Table.lookup_retain _ s m

theorem Moves.refused (h : Moves C self w a w' new) {call : Nat}
    {request : PrepareRequest T} {error : Error}
    (hmem : .refused call request error ∈ new) :
    w'.pending.data = w.pending.data ∨
    ∃ grant now, w.calls call = .timed request grant now ∧
      w'.pending.data = prune now w.pending.data := by
  cases h with
  | refuse h => exact .inl rfl
  | reserveRefused h hp =>
      rw [List.mem_singleton] at hmem
      injection hmem with hc hr he
      subst hc hr he
      rcases hp with rfl | rfl
      · exact .inl rfl
      · exact .inr ⟨_, _, h, rfl⟩
  | _ => simp at hmem

theorem Moves.named (h : Moves C self w a w' new)
    (hopen : w.pending.poisoned = false) {s : Hash} (hs : a.names s = true) :
    w'.pending.data = w.pending.data.erase s := by
  cases h with
  | stay h => exact absurd hs (by rw [h]; exact Bool.false_ne_true)
  | finishPoisoned h => cases hopen.symm.trans h
  | cancelPoisoned h => cases hopen.symm.trans h
  | finishMissing h => rw [← of_decide_eq_true hs]; rfl
  | finishTake h => rw [← of_decide_eq_true hs]; rfl
  | cancel => rw [← of_decide_eq_true hs]; rfl
  | _ => cases hs

theorem Moves.untouched (h : Moves C self w a w' new)
    (hact : ∀ s, a.names s = false)
    (hnone : ∀ e ∈ new, e.endsPrepare = false) :
    w'.pending.data = w.pending.data := by
  cases h with
  | reserveRefused h hp => cases hnone _ List.mem_cons_self
  | reserve h hr => cases hnone _ List.mem_cons_self
  | @finishMissing request h =>
      exact absurd (hact request.session) (by simp [Act.names])
  | @finishTake request _ h =>
      exact absurd (hact request.session) (by simp [Act.names])
  | @cancel request =>
      exact absurd (hact request.session) (by simp [Act.names])
  | _ => rfl

theorem lookup_of_notMem_prune {now : Instant} {m : Sessions T} {s : Hash}
    (h : s ∉ prune now m) {p : Pending T} (hs : m.lookup s = some p) :
    p.expires ≤ now := by
  refine Nat.le_of_not_lt ?_
  intro hlt
  have hin := lookup_prune.mpr ⟨hs, hlt⟩
  rw [AList.lookup_eq_none.mpr h] at hin
  cases hin

theorem framed_of_moves (C : Crates T) (self : ArkSigner T)
    (acts : List (Act T)) (a : Act T) : Framed C self acts a := by
  have hm := @step_moves T C self ((signer C self).state acts) a
  have hnext := (signer C self).state_concat acts a
  constructor
  · intro call request now response entry hmem
    obtain ⟨grant, -, hr, hdata, -, -⟩ := hm.prepared hmem
    rw [hnext]
    refine ⟨fun p hp => lookup_of_notMem_prune hr.free hp, ?_, ?_⟩
    · rw [show ((signer C self).step _ a).1.pending.data = _ from hdata,
        AList.lookup_insert]
    · intro s hs
      rw [show ((signer C self).step _ a).1.pending.data = _ from hdata,
        AList.lookup_insert_ne hs]
      exact dropped_prune now _ s
  · intro call request error hmem
    rw [hnext]
    rcases hm.refused hmem with hsame | ⟨grant, now, hcall, hdata⟩
    · exact .inl hsame
    · refine .inr ⟨grant, now, hcall, ?_⟩
      rw [show ((signer C self).step _ a).1.pending.data = _ from hdata]
      exact dropped_prune now _
  · intro session hnamed
    have hdata := hm.named (unpoisoned_of_reached (reached_run C self acts))
      hnamed
    rw [hnext, show ((signer C self).step _ a).1.pending.data = _ from hdata]
    exact ⟨AList.lookup_erase _ _, fun s hs => AList.lookup_erase_ne hs⟩
  · intro hact hnone
    rw [hnext]
    exact hm.untouched hact hnone

/-! ## The map and the open sessions -/

/-- The log at the action that created a session. -/
theorem log_prepared {before after : List (Act T)} {call : Nat}
    {request : PrepareRequest T} {now : Instant} {response : PrepareResponse}
    {entry : Pending T}
    (hmem : .prepared call request now response entry
      ∈ ((signer C self).step ((signer C self).state before) a).2) :
    (signer C self).log (before ++ a :: after)
      = ((signer C self).log before ++ [.inl a]) ++
        .inr (.prepared call request now response entry) ::
          (signer C self).logFrom ((signer C self).state (before ++ [a]))
            after := by
  obtain ⟨-, -, -, -, -, hnew⟩ :=
    (@step_moves T C self ((signer C self).state before) a).prepared hmem
  rw [List.append_cons, Machine.log_append, Machine.log_concat,
    show ((signer C self).step _ a).2 = _ from hnew]
  simp only [List.map_cons, List.map_nil, List.append_assoc, List.cons_append,
    List.nil_append]

theorem unnamed_iff {s : Hash} {acts : List (Act T)} :
    (∀ x ∈ (signer C self).logFrom w acts, namesIn s x = false) ↔
      ∀ b ∈ acts, b.names s = false := by
  constructor
  · intro h b hb
    exact h (.inl b) (((signer C self).inl_mem_logFrom).mpr hb)
  · intro h x hx
    cases x with
    | inl b => exact h b (((signer C self).inl_mem_logFrom).mp hx)
    | inr e => rfl

/-- A session the run created and nothing has named since is outstanding. -/
theorem outstanding_of_prepared {before after : List (Act T)} {call : Nat}
    {request : PrepareRequest T} {now : Instant} {response : PrepareResponse}
    {entry : Pending T}
    (hmem : .prepared call request now response entry
      ∈ ((signer C self).step ((signer C self).state before) a).2)
    (hafter : ∀ b ∈ after, b.names response.session = false) :
    (⟨response.session, now, entry⟩ : Opened T)
      ∈ outstanding ((signer C self).log (before ++ a :: after)) :=
  mem_outstanding.mpr ⟨_, call, request, response, _, log_prepared hmem, rfl,
    unnamed_iff.mpr hafter⟩

theorem lookup_of_outstanding {acts : List (Act T)} {o : Opened T}
    (ho : o ∈ outstanding ((signer C self).log acts))
    (halive : ((signer C self).state acts).clock < o.since + sessionLifetime) :
    ((signer C self).state acts).pending.data.lookup o.id = some o.entry := by
  have hlive : o ∈ live ((signer C self).state acts).clock
      ((signer C self).log acts) :=
    List.mem_filter.mpr ⟨ho, decide_eq_true halive⟩
  have hmem := (unexpired_perm_live acts (Nat.le_refl _)).mem_iff.mpr
    (List.mem_map_of_mem hlive)
  exact Table.lookup_eq_some_iff.mpr (List.mem_filter.mp hmem).1

theorem persists (C : Crates T) (self : ArkSigner T) (acts : List (Act T)) :
    Persists C self acts := by
  intro before a after call request now response entry hacts hmem hafter
    halive
  subst hacts
  exact lookup_of_outstanding (outstanding_of_prepared hmem hafter) halive

/-- In every run, every action keeps to its frame, and every session stays as
it was created until it is named or its lifetime is over. -/
theorem sessions_framed (C : Crates T) (self : ArkSigner T)
    (acts : List (Act T)) :
    (∀ a, Framed C self acts a) ∧ Persists C self acts :=
  ⟨framed_of_moves C self acts, persists C self acts⟩

/-- The id of a successful prepare was not in the map before it. -/
def FreshId (C : Crates T) (self : ArkSigner T) (acts : List (Act T))
    (a : Act T) : Prop :=
  ∀ {call request now response entry},
    .prepared call request now response entry
      ∈ ((signer C self).step ((signer C self).state acts) a).2 →
    response.session ∉ ((signer C self).state acts).pending.data

end

/-- A session expires unnamed, and the next prepare draws its id again: it
drops the old entry and takes its place. -/
theorem reserve_reuses_expired_id :
    ¬ FreshId symbolicCrates Symbolic.self Symbolic.redrawnRun
      (.reserve 1 1 [hashOf 5]) := by
  intro h
  have hin : hashOf 5 ∈ ((signer symbolicCrates Symbolic.self).state
      Symbolic.redrawnRun).pending.data := by decide
  exact h List.mem_cons_self hin

section

variable {T : Types} {C : Crates T} {self : ArkSigner T} {w w' : World T}
  {a : Act T} {es new : List (Event T)}

/-! ## Outcomes -/

end

end SapioTee
