import SapioTee.Model.Symbolic
import SapioTee.Proofs.SignerHistory

/-!
# The ledger behind the session map, and exact capacity

`outstanding` is the specification of what should be pending, read off the
log of the run alone: every session a prepare created and no later finish or
cancel named in its request. The map is not that list. It loses expired
entries whenever some prepare prunes it, at a reading that may lie behind the
clock, and keeps them otherwise. But the two agree on everything that is
still alive: at any time from the clock on, the entries of the map that have
not expired by then are the outstanding sessions that have not, up to order
(`ledger`).

The capacity checks count exactly those entries, so a refusal for capacity
is decided by the history. That no slot leaks and none is freed early is the
equivalence in `capacity_exact`; the two bounds on the map itself, expired
entries included, need only the checks.
-/

namespace SapioTee

open Lib

section

variable {T : Types}

/-! ## Sessions the history leaves open -/

/-- A session a prepare created: its id, the clock value that prepare read
and the entry it stored. -/
structure Opened (T : Types) where
  id : Hash
  since : Instant
  entry : Pending T

/-- A finish or cancel of the log that names the session. -/
def namesIn (s : Hash) : Act T ⊕ Event T → Bool
  | .inl act => act.names s
  | .inr _ => false

/-- The sessions created and not named since, oldest first. -/
def outstanding : List (Act T ⊕ Event T) → List (Opened T)
  | [] => []
  | .inr (.prepared _ _ now response entry) :: log =>
      if log.any (namesIn response.session) then outstanding log
      else ⟨response.session, now, entry⟩ :: outstanding log
  | _ :: log => outstanding log

/-- Its lifetime has not passed at `t`. -/
def Opened.aliveAt (t : Instant) (o : Opened T) : Bool :=
  decide (t < o.since + sessionLifetime)

def live (t : Instant) (log : List (Act T ⊕ Event T)) : List (Opened T) :=
  (outstanding log).filter (Opened.aliveAt t)

theorem outstanding_append (log new : List (Act T ⊕ Event T)) :
    outstanding (log ++ new) =
      (outstanding log).filter (fun o => !new.any (namesIn o.id)) ++
        outstanding new := by
  induction log with
  | nil => rfl
  | cons x log ih =>
      cases x with
      | inl act => exact ih
      | inr e =>
          cases e with
          | prepared call request now response entry =>
              simp only [List.cons_append, outstanding, List.any_append]
              by_cases hlog : log.any (namesIn response.session) = true
              · rw [if_pos hlog, hlog, Bool.true_or, if_pos rfl, ih]
              · rw [if_neg hlog, Bool.eq_false_iff.mpr hlog, Bool.false_or]
                by_cases hnew : new.any (namesIn response.session) = true
                · rw [if_pos hnew, ih,
                    List.filter_cons_of_neg (by simp [hnew])]
                · rw [if_neg hnew, ih,
                    List.filter_cons_of_pos (by simp [hnew]), List.cons_append]
          | _ => exact ih

/-- What one action and its events add to the log. -/
def logged (a : Act T) (new : List (Event T)) : List (Act T ⊕ Event T) :=
  .inl a :: new.map .inr

theorem any_names_logged (a : Act T) (new : List (Event T)) (s : Hash) :
    (logged a new).any (namesIn s) = a.names s := by
  rw [logged, List.any_cons, List.any_map]
  refine Bool.or_eq_left_iff_imp.mpr ?_
  intro hnamed
  rw [List.any_eq_true] at hnamed
  obtain ⟨e, -, he⟩ := hnamed
  cases he

theorem outstanding_quiet {log : List (Act T ⊕ Event T)} {a : Act T}
    {new : List (Event T)} (hact : ∀ s, a.names s = false)
    (hnew : outstanding (logged a new) = []) :
    outstanding (log ++ logged a new) = outstanding log := by
  rw [outstanding_append, hnew, List.append_nil, List.filter_eq_self]
  intro o _
  rw [any_names_logged, hact]
  rfl

theorem outstanding_named {log : List (Act T ⊕ Event T)} {a : Act T}
    {new : List (Event T)} {s : Hash}
    (hact : ∀ id, a.names id = decide (s = id))
    (hnew : outstanding (logged a new) = []) :
    outstanding (log ++ logged a new) =
      (outstanding log).filter fun o => !decide (o.id = s) := by
  rw [outstanding_append, hnew, List.append_nil]
  refine List.filter_congr ?_
  intro o _
  rw [any_names_logged, hact, Bool.not_inj_iff, decide_eq_decide]
  exact eq_comm

/-- An outstanding session is one whose `prepared` event stands in the log
with no finish or cancel naming it after. -/
theorem mem_outstanding {log : List (Act T ⊕ Event T)} {o : Opened T} :
    o ∈ outstanding log ↔ ∃ pre call request response post,
      log = pre ++ .inr (.prepared call request o.since response o.entry)
        :: post ∧
      response.session = o.id ∧ ∀ x ∈ post, namesIn o.id x = false := by
  constructor
  · intro h
    induction log with
    | nil => cases h
    | cons x log ih =>
        have hrest : o ∈ outstanding log → ∃ pre call request response post,
            x :: log
              = pre ++ .inr (.prepared call request o.since response o.entry)
                :: post ∧
            response.session = o.id ∧ ∀ x ∈ post, namesIn o.id x = false := by
          intro hmem
          obtain ⟨pre, call, request, response, post, rfl, hid, hpost⟩ := ih hmem
          exact ⟨x :: pre, call, request, response, post, rfl, hid, hpost⟩
        cases x with
        | inl act => exact hrest h
        | inr e =>
            cases e with
            | prepared call request now response entry =>
                simp only [outstanding] at h
                split at h
                · exact hrest h
                · next hnone =>
                    rcases List.mem_cons.mp h with rfl | hmem
                    · refine ⟨[], call, request, response, log, rfl, rfl, ?_⟩
                      intro x hx
                      rw [Bool.not_eq_true, List.any_eq_false] at hnone
                      exact Bool.eq_false_iff.mpr (hnone x hx)
                    · exact hrest hmem
            | _ => exact hrest h
  · rintro ⟨pre, call, request, response, post, rfl, hid, hpost⟩
    rw [outstanding_append]
    refine List.mem_append_right _ ?_
    have hnone : post.any (namesIn response.session) = false := by
      rw [List.any_eq_false]
      intro x hx
      rw [hid, hpost x hx]
      exact Bool.false_ne_true
    simp only [outstanding, hnone, Bool.false_eq_true, if_false]
    rw [hid]
    exact List.mem_cons_self

/-! ## The map agrees with the ledger on what is alive -/

/-- The entry of the map a session stands for. -/
def Opened.toEntry (o : Opened T) : (_ : Hash) × Pending T := ⟨o.id, o.entry⟩

/-- The entries not yet expired at `t`. -/
def unexpired (t : Instant) (l : List ((_ : Hash) × Pending T)) :
    List ((_ : Hash) × Pending T) :=
  l.filter fun e => decide (t < e.2.expires)

theorem entries_prune (now : Instant) (m : Sessions T) :
    (prune now m).entries = unexpired now m.entries := rfl

theorem unexpired_unexpired {now t : Instant} (h : now ≤ t)
    (l : List ((_ : Hash) × Pending T)) :
    unexpired t (unexpired now l) = unexpired t l := by
  rw [unexpired, unexpired, List.filter_filter, unexpired]
  refine List.filter_congr ?_
  intro e _
  by_cases he : t < e.2.expires
  · rw [decide_eq_true he, decide_eq_true (Nat.lt_of_le_of_lt h he)]
    rfl
  · rw [decide_eq_false he]
    rfl

def Ledger (w : World T) (log : List (Act T ⊕ Event T)) : Prop :=
  ∀ t, w.clock ≤ t →
    (unexpired t w.pending.data.entries).Perm
      (unexpired t ((outstanding log).map Opened.toEntry))

variable {C : Crates T} {self : ArkSigner T} {w w' : World T} {a : Act T}
  {es new : List (Event T)} {log : List (Act T ⊕ Event T)}

theorem Ledger.erase (h : Ledger w log) {s : Hash}
    (hdata : w'.pending.data = w.pending.data.erase s)
    (hclock : w'.clock = w.clock)
    (hact : ∀ id, a.names id = decide (s = id))
    (hnew : outstanding (logged a new) = []) :
    Ledger w' (log ++ logged a new) := by
  intro t ht
  rw [hclock] at ht
  have hkeep := (h t ht).filter fun e => !decide (e.1 = s)
  rw [hdata, Table.entries_erase, outstanding_named hact hnew]
  have hcomm : ∀ l : List ((_ : Hash) × Pending T),
      unexpired t (l.filter fun e => !decide (e.1 = s))
        = (unexpired t l).filter fun e => !decide (e.1 = s) :=
    fun l => List.filter_comm _ _ l
  have hmap : ((outstanding log).filter fun o => !decide (o.id = s)).map
      Opened.toEntry
        = ((outstanding log).map Opened.toEntry).filter
            fun e => !decide (e.1 = s) := by
    rw [List.filter_map]
    rfl
  rw [hcomm, hmap, hcomm]
  exact hkeep

theorem Ledger.quiet (h : Ledger w log) (hclock : w.clock ≤ w'.clock)
    (hdata : w'.pending.data = w.pending.data)
    (hact : ∀ s, a.names s = false)
    (hnew : outstanding (logged a new) = []) :
    Ledger w' (log ++ logged a new) := by
  intro t ht
  rw [hdata, outstanding_quiet hact hnew]
  exact h t (Nat.le_trans hclock ht)

theorem Ledger.pruned (h : Ledger w log) {now : Instant} (hnow : now ≤ w.clock)
    (hclock : w'.clock = w.clock)
    (hdata : w'.pending.data = prune now w.pending.data)
    (hact : ∀ s, a.names s = false)
    (hnew : outstanding (logged a new) = []) :
    Ledger w' (log ++ logged a new) := by
  intro t ht
  rw [hclock] at ht
  rw [hdata, entries_prune, unexpired_unexpired (Nat.le_trans hnow ht),
    outstanding_quiet hact hnew]
  exact h t ht

theorem Ledger.insert (h : Ledger w log) {call : Nat}
    {request : PrepareRequest T} {now : Instant} {response : PrepareResponse}
    {entry : Pending T} (hnow : now ≤ w.clock) (hclock : w'.clock = w.clock)
    (hfree : response.session ∉ prune now w.pending.data)
    (hdata : w'.pending.data
      = (prune now w.pending.data).insert response.session entry)
    (hact : ∀ s, a.names s = false) :
    Ledger w' (log ++ logged a
      [.prepared call request now response entry]) := by
  intro t ht
  rw [hclock] at ht
  have hlog : outstanding (log ++ logged a
      [.prepared call request now response entry])
        = outstanding log ++ [⟨response.session, now, entry⟩] := by
    rw [outstanding_append, List.filter_eq_self.mpr]
    · rfl
    · intro o _
      rw [any_names_logged, hact]
      rfl
  rw [hdata, AList.entries_insert_of_notMem hfree, hlog, List.map_append]
  have hhead : ∀ l : List ((_ : Hash) × Pending T),
      unexpired t (⟨response.session, entry⟩ :: l)
        = unexpired t [⟨response.session, entry⟩] ++ unexpired t l :=
    fun l => List.filter_append [_] l
  have htail : unexpired t ((outstanding log).map Opened.toEntry ++
      [Opened.toEntry ⟨response.session, now, entry⟩])
        = unexpired t ((outstanding log).map Opened.toEntry) ++
          unexpired t [⟨response.session, entry⟩] :=
    List.filter_append _ _
  have hkeep : (unexpired t (prune now w.pending.data).entries).Perm
      (unexpired t ((outstanding log).map Opened.toEntry)) := by
    rw [entries_prune, unexpired_unexpired (Nat.le_trans hnow ht)]
    exact h t ht
  rw [hhead]
  refine (hkeep.append_left _).trans ?_
  refine List.perm_append_comm.trans ?_
  exact .of_eq htail.symm

theorem Moves.ledger (hm : Moves C self w a w' new) (hcheck : Checked C self w)
    (hopen : w.pending.poisoned = false) (hw : Ledger w log) :
    Ledger w' (log ++ logged a new) := by
  have hclock := hm.clock_le
  cases hm with
  | stay h => exact hw.quiet hclock rfl h rfl
  | reserveRefused h hp =>
      rcases hp with rfl | rfl
      · exact hw.quiet hclock rfl (fun _ => rfl) rfl
      · exact hw.pruned (hcheck.timed h).2 rfl rfl (fun _ => rfl) rfl
  | reserve h hr =>
      exact hw.insert (hcheck.timed h).2 rfl hr.free rfl (fun _ => rfl)
  | finishMissing h => exact hw.erase rfl rfl (fun _ => rfl) rfl
  | finishTake h => exact hw.erase rfl rfl (fun _ => rfl) rfl
  | cancel => exact hw.erase rfl rfl (fun _ => rfl) rfl
  | finishPoisoned h => cases hopen.symm.trans h
  | cancelPoisoned h => cases hopen.symm.trans h
  | _ => exact hw.quiet hclock rfl (fun _ => rfl) rfl

theorem ledger (acts : List (Act T)) :
    Ledger ((signer C self).state acts) ((signer C self).log acts) := by
  induction acts using List.reverseRecOn with
  | nil => exact fun t _ => .refl _
  | append_singleton acts a ih =>
      rw [Machine.state_concat, Machine.log_concat]
      have hreach := reached_run C self acts
      exact (step_moves _ a).ledger (checked_of_reached hreach)
        (unpoisoned_of_reached hreach) ih

theorem outstanding_expires {acts : List (Act T)} {o : Opened T}
    (ho : o ∈ outstanding ((signer C self).log acts)) :
    o.entry.expires = o.since + sessionLifetime := by
  obtain ⟨pre, call, request, response, post, hcut, -, -⟩ :=
    mem_outstanding.mp ho
  have hmem : .inr (.prepared call request o.since response o.entry)
      ∈ (signer C self).log acts := by
    rw [hcut]
    exact List.mem_append_right pre List.mem_cons_self
  obtain ⟨grant, hmint⟩ := (history_of_reached (reached_run C self acts)).minted
    ((signer C self).mem_trace_iff.mpr hmem)
  exact hmint.expires

/-- At any time from the clock on, what the map holds alive is what the
history leaves open and alive. -/
theorem unexpired_perm_live (acts : List (Act T)) {t : Instant}
    (ht : ((signer C self).state acts).clock ≤ t) :
    (unexpired t ((signer C self).state acts).pending.data.entries).Perm
      ((live t ((signer C self).log acts)).map Opened.toEntry) := by
  have hlive : (live t ((signer C self).log acts)).map Opened.toEntry
      = unexpired t
        ((outstanding ((signer C self).log acts)).map Opened.toEntry) := by
    rw [unexpired, List.filter_map, live]
    refine congrArg _ (List.filter_congr ?_)
    intro o ho
    show decide (t < o.since + sessionLifetime) = decide (t < o.entry.expires)
    rw [outstanding_expires ho]
  rw [hlive]
  exact ledger acts t ht

/-! ## Capacity -/

/-- The map never holds more than its two limits, expired entries included. -/
structure Bounded (pending : Sessions T) : Prop where
  total : pending.size ≤ maxPendingSessions
  user : ∀ u, heldByUser u pending ≤ maxSessionsPerUser

theorem Bounded.prune {m : Sessions T} (h : Bounded m) (now : Instant) :
    Bounded (prune now m) :=
  ⟨Nat.le_trans (Table.size_retain_le _ _) h.total,
    fun u => Nat.le_trans (Table.count_retain_le _ _ _) (h.user u)⟩

theorem Bounded.erase {m : Sessions T} (h : Bounded m) (s : Hash) :
    Bounded (m.erase s) :=
  ⟨Nat.le_trans (Table.size_erase_le _ _) h.total,
    fun u => Nat.le_trans (Table.count_erase_le _ _ _) (h.user u)⟩

theorem Bounded.insert {m : Sessions T} (h : Bounded m) {s : Hash}
    {p : Pending T} (hfree : s ∉ m) (hroom : m.size < maxPendingSessions)
    (huser : heldByUser p.user m < maxSessionsPerUser) :
    Bounded (m.insert s p) := by
  refine ⟨?_, ?_⟩
  · rw [Table.size_insert hfree]
    exact hroom
  · intro u
    rw [heldByUser, Table.count_insert hfree]
    by_cases hu : (p.user == u) = true
    · rw [if_pos hu, ← eq_of_beq hu]
      exact huser
    · rw [if_neg hu]
      exact h.user u

theorem bounded_of_reached (hreach : Reached C self w es) :
    Bounded w.pending.data := by
  refine signer_induct (P := fun w _ => Bounded w.pending.data) ?_ ?_ hreach
  · exact ⟨Nat.zero_le _, fun u => Nat.zero_le _⟩
  · intro w a w' es new hreach hw hm
    cases hm with
    | reserveRefused h hp =>
        rcases hp with rfl | rfl
        · exact hw
        · exact hw.prune _
    | reserve h hr =>
        refine (hw.prune _).insert hr.free hr.room ?_
        rw [Pending.user, hr.intent]
        exact hr.userRoom
    | finishMissing h => exact hw.erase _
    | finishTake h => exact hw.erase _
    | cancel => exact hw.erase _
    | _ => exact hw

theorem size_prune (acts : List (Act T)) :
    (prune ((signer C self).state acts).clock
        ((signer C self).state acts).pending.data).size
      = (live ((signer C self).state acts).clock
        ((signer C self).log acts)).length := by
  rw [Table.size, entries_prune,
    (unexpired_perm_live acts (Nat.le_refl _)).length_eq, List.length_map]

theorem heldByUser_prune (acts : List (Act T)) (u : T.PublicKey) :
    heldByUser u (prune ((signer C self).state acts).clock
        ((signer C self).state acts).pending.data)
      = (live ((signer C self).state acts).clock
        ((signer C self).log acts)).countP fun o => o.entry.user == u := by
  rw [heldByUser, Table.count, entries_prune,
    (unexpired_perm_live acts (Nat.le_refl _)).countP_eq, List.countP_map]
  rfl

/-- The critical section refuses for capacity exactly when one of its two
counts is at its limit, whatever entropy and ids it is given. -/
theorem prepareReserve_refused_iff {call : Nat} {grant : Grant T}
    {now : Instant} {entropy : T.Entropy} {draws : List Hash}
    {pending : Sessions T} :
    (∃ error pending',
      prepareReserve C call grant now entropy draws pending
        = some (.error error, pending') ∧
      (error = capacityExceeded ∨ error = walletCapacityExceeded)) ↔
    maxPendingSessions ≤ (prune now pending).size ∨
      maxSessionsPerUser
        ≤ heldByUser (getElem grant.intent.members 0 Nat.zero_lt_two)
          (prune now pending) := by
  simp only [prepareReserve]
  split
  · next hfull =>
      exact ⟨fun _ => .inl hfull, fun _ => ⟨_, _, rfl, .inl rfl⟩⟩
  · next hroom =>
      split
      · next huser =>
          exact ⟨fun _ => .inr huser, fun _ => ⟨_, _, rfl, .inr rfl⟩⟩
      · next huserRoom =>
          refine ⟨?_, fun h => h.elim (absurd · hroom) (absurd · huserRoom)⟩
          rintro ⟨error, pending', h, hcap⟩
          split at h
          · injection h with h
            injection h with h _
            injection h with h
            rw [← h] at hcap
            rcases hcap with hcap | hcap <;> cases hcap
          · split at h
            · cases h
            · injection h with h
              injection h with h _
              cases h

/-- The reservation step of a call that has just read the clock, as the
result of its critical section. -/
theorem reserve_refused_iff (hopen : w.pending.poisoned = false) {call : Nat}
    {request : PrepareRequest T} {grant : Grant T}
    (hcall : w.calls call = .authorized request grant) {error : Error}
    {entropy : T.Entropy} {draws : List Hash} :
    .refused call request error ∈ ((signer C self).runFrom w
        [.readClock call, .reserve call entropy draws]).2 ↔
      ∃ pending', prepareReserve C call grant w.clock entropy draws
        w.pending.data = some (.error error, pending') := by
  have hread : w.stepReadClock call
      = (w.setCall call (.timed request grant w.clock), []) := by
    simp only [World.stepReadClock, hcall]
  simp only [Machine.runFrom, signer, World.step, hread, List.append_nil,
    List.nil_append]
  simp only [World.stepReserve, World.setCall_calls_self,
    World.setCall_pending, hopen, Bool.false_eq_true, if_false]
  constructor
  · intro h
    split at h
    · cases h
    · next error' pending' hres =>
        rw [List.mem_singleton] at h
        injection h with _ _ h
        rw [h]
        exact ⟨pending', hres⟩
    · rw [List.mem_singleton] at h
      cases h
  · rintro ⟨pending', hres⟩
    rw [hres]
    exact List.mem_singleton.mpr rfl

/-- In every reachable state the map is within both limits; and a prepare
past its checks, whose clock reading and critical section run as one step,
is refused for capacity exactly when the history leaves open and alive as
many sessions as a limit allows. -/
theorem capacity_exact (C : Crates T) (self : ArkSigner T)
    (acts : List (Act T)) :
    Bounded ((signer C self).state acts).pending.data ∧
    ∀ (call : Nat) (request : PrepareRequest T) (grant : Grant T)
      (entropy : T.Entropy) (draws : List Hash),
      ((signer C self).state acts).calls call = .authorized request grant →
      ((∃ error, (error = capacityExceeded ∨ error = walletCapacityExceeded) ∧
        .refused call request error ∈ ((signer C self).runFrom
          ((signer C self).state acts)
          [.readClock call, .reserve call entropy draws]).2) ↔
        maxPendingSessions ≤ (live ((signer C self).state acts).clock
          ((signer C self).log acts)).length ∨
        maxSessionsPerUser ≤ (live ((signer C self).state acts).clock
          ((signer C self).log acts)).countP
            fun o => o.entry.user
              == getElem grant.intent.members 0 Nat.zero_lt_two) := by
  have hreach := reached_run C self acts
  refine ⟨bounded_of_reached hreach, ?_⟩
  intro call request grant entropy draws hcall
  rw [← size_prune, ← heldByUser_prune,
    ← @prepareReserve_refused_iff T C call grant _ entropy draws]
  constructor
  · rintro ⟨error, hcap, hmem⟩
    obtain ⟨pending', hres⟩ :=
      (reserve_refused_iff (unpoisoned_of_reached hreach) hcall).mp hmem
    exact ⟨error, pending', hres, hcap⟩
  · rintro ⟨error, pending', hres, hcap⟩
    exact ⟨error, hcap,
      (reserve_refused_iff (unpoisoned_of_reached hreach) hcall).mpr
        ⟨pending', hres⟩⟩

end

/-- With one session open, the wallet's next prepare is not refused for
capacity. -/
theorem capacity_exact_secondPrepareRun :
    ¬ ∃ error, (error = capacityExceeded ∨ error = walletCapacityExceeded) ∧
      .refused 1 (Symbolic.prepareRequest 1 1) error
        ∈ ((signer symbolicCrates Symbolic.self).runFrom
          ((signer symbolicCrates Symbolic.self).state Symbolic.secondPrepareRun)
          [.readClock 1, .reserve 1 1 [hashOf 6]]).2 := by
  intro hrefused
  have hfull := ((capacity_exact symbolicCrates Symbolic.self
    Symbolic.secondPrepareRun).2 1 _ _ 1 [hashOf 6] rfl).mp hrefused
  revert hfull
  decide

end SapioTee
