import Mathlib.Data.List.Induction
import Mathlib.Logic.Function.Basic

/-!
# Machines that leave a trace, and what holds along every run

A machine takes one action at a time and answers with its next state and
the events that action emitted. A run is a list of actions; its trace is
the events in order. Everything an environment may decide (which call moves
next, what a clock or a generator answered) is inside the action, so "for
every run" is "for every list of actions".

The induction is packaged once. `run_induct` proves a property of state and
trace together, so an invariant may mention everything that ever happened,
and `run_induct_reach` lets a later invariant use an earlier one;
`stable_append` is for what, once reached, no step undoes, and
`exists_run_of_view` reads the runs of one machine as runs of another.
`state_append` and `trace_append` cut a run in two, which is how "later" is
said; `Always` is how "everything before this event" is said, and `sumAlong`
adds up what depends on it.
-/

namespace SapioTee.Lib

/-- Every event of a trace stands in the relation `Q` to what came before
it. -/
def Always {E : Type} (Q : List E → E → Prop) (es : List E) : Prop :=
  ∀ pre e post, es = pre ++ e :: post → Q pre e

theorem always_nil {E : Type} (Q : List E → E → Prop) : Always Q [] := by
  intro pre e post h
  cases pre <;> cases h

theorem Always.append {E : Type} {Q : List E → E → Prop} {es new : List E}
    (h : Always Q es)
    (hnew : ∀ pre e post, new = pre ++ e :: post → Q (es ++ pre) e) :
    Always Q (es ++ new) := by
  intro pre e post heq
  rcases List.append_eq_append_iff.mp heq with ⟨mid, rfl, hn⟩ | ⟨mid, rfl, hn⟩
  · exact hnew mid e post hn
  · cases mid with
    | nil =>
        have hq := hnew [] e post hn.symm
        rwa [List.append_nil, List.append_nil] at hq
    | cons x mid =>
        injection hn with hx _
        subst hx
        exact h pre e mid rfl

theorem always_cons {E : Type} {Q : List E → E → Prop} {e : E} {es : List E} :
    Always Q (e :: es) ↔ Q [] e ∧ Always (fun pre x => Q (e :: pre) x) es := by
  constructor
  · intro h
    refine ⟨h [] e es rfl, ?_⟩
    rintro pre x post rfl
    exact h (e :: pre) x post rfl
  · rintro ⟨hhead, htail⟩ pre x post heq
    cases pre with
    | nil =>
        injection heq with hx _
        subst hx
        exact hhead
    | cons y pre =>
        injection heq with hy hrest
        subst hy
        exact htail pre x post hrest

/-- The sum over a trace of what each event costs after what came before
it. -/
def sumAlong {E : Type} (f : List E → E → Nat) : List E → Nat
  | [] => 0
  | e :: es => f [] e + sumAlong (fun pre x => f (e :: pre) x) es

/-- Two events that leave the same mark, when no mark was left twice, are one
event. -/
theorem eq_of_nodup_marks {E K : Type} {f : E → Option K} {es : List E}
    (h : (es.filterMap f).Nodup) {a b : E} (ha : a ∈ es) (hb : b ∈ es)
    {k : K} (hfa : f a = some k) (hfb : f b = some k) : a = b := by
  induction es with
  | nil => cases ha
  | cons e es ih =>
      have htail : (es.filterMap f).Nodup :=
        h.sublist ((List.sublist_cons_self e es).filterMap f)
      have hhead : ∀ x ∈ es, f e = some k → f x = some k → False := by
        intro x hx hfe hfx
        rw [List.filterMap_cons_some hfe, List.nodup_cons] at h
        exact h.1 (List.mem_filterMap.mpr ⟨x, hx, hfx⟩)
      rcases List.mem_cons.mp ha with rfl | hae
      · rcases List.mem_cons.mp hb with rfl | hbe
        · rfl
        · exact absurd hfb (hhead b hbe hfa)
      · rcases List.mem_cons.mp hb with rfl | hbe
        · exact absurd hfa (hhead a hae hfb)
        · exact ih htail hae hbe

/-- A mark that was not left twice is left by one occurrence only. -/
theorem only_of_nodup_marks {E K : Type} {f : E → Option K}
    {pre post : List E} {e : E} (h : ((pre ++ e :: post).filterMap f).Nodup)
    {k : K} (hfe : f e = some k) : ∀ x ∈ pre ++ post, f x ≠ some k := by
  intro x hx hfx
  have hone := (h.perm (List.perm_middle.filterMap f))
  rw [List.filterMap_cons_some hfe, List.nodup_cons] at hone
  exact hone.1 (List.mem_filterMap.mpr ⟨x, hx, hfx⟩)

/-- A labelled, deterministic machine: the nondeterminism is in the actions. -/
structure Machine (S A E : Type) where
  init : S
  step : S → A → S × List E

/-! ## The events of one part -/

section

variable {E K : Type} {f : K → E} {g : E → Option K}

theorem mem_view (h : Function.IsPartialInv f g) {es : List E} {k : K} :
    k ∈ es.filterMap g ↔ f k ∈ es := by
  rw [List.mem_filterMap]
  constructor
  · rintro ⟨e, he, hview⟩
    rwa [(h k e).mp hview]
  · intro hmem
    exact ⟨f k, hmem, (h k (f k)).mpr rfl⟩

theorem view_map (h : Function.IsPartialInv f g) (l : List K) :
    (l.map f).filterMap g = l := by
  rw [List.filterMap_map]
  have hcomp : g ∘ f = some := funext fun k => (h k (f k)).mpr rfl
  rw [hcomp, List.filterMap_some]

/-- What another part has emitted is nothing in this one's view. -/
theorem view_map_none {J : Type} {f : J → E} (h : ∀ j, g (f j) = none)
    (l : List J) : (l.map f).filterMap g = [] := by
  rw [List.filterMap_map, List.filterMap_eq_nil_iff]
  exact fun j _ => h j

end

namespace Machine

variable {S A E : Type} (M : Machine S A E)

/-- Run a list of actions from a state, collecting the trace. -/
def runFrom (s : S) : List A → S × List E
  | [] => (s, [])
  | a :: as =>
      let (s', es) := M.step s a
      let (s'', es') := runFrom s' as
      (s'', es ++ es')

/-- A run from the start. -/
def run (as : List A) : S × List E := M.runFrom M.init as

/-- The state a run ends in. -/
def state (as : List A) : S := (M.run as).1

/-- The events a run emitted, oldest first. -/
def trace (as : List A) : List E := (M.run as).2

/-- What happened from a state, oldest first: each action, then the events
it emitted. -/
def logFrom (s : S) : List A → List (A ⊕ E)
  | [] => []
  | a :: as =>
      .inl a :: ((M.step s a).2.map .inr ++ logFrom (M.step s a).1 as)

def log (as : List A) : List (A ⊕ E) := M.logFrom M.init as

theorem runFrom_append (s : S) (as bs : List A) :
    M.runFrom s (as ++ bs) =
      ((M.runFrom (M.runFrom s as).1 bs).1,
        (M.runFrom s as).2 ++ (M.runFrom (M.runFrom s as).1 bs).2) := by
  induction as generalizing s with
  | nil => rfl
  | cons a as ih =>
      simp only [List.cons_append, runFrom, ih, List.append_assoc]

theorem state_append (as bs : List A) :
    M.state (as ++ bs) = (M.runFrom (M.state as) bs).1 := by
  rw [state, run, runFrom_append]
  rfl

theorem trace_append (as bs : List A) :
    M.trace (as ++ bs) = M.trace as ++ (M.runFrom (M.state as) bs).2 := by
  rw [trace, run, runFrom_append]
  rfl

theorem state_concat (as : List A) (a : A) :
    M.state (as ++ [a]) = (M.step (M.state as) a).1 := by
  rw [state_append]
  rfl

theorem trace_concat (as : List A) (a : A) :
    M.trace (as ++ [a]) = M.trace as ++ (M.step (M.state as) a).2 := by
  rw [trace_append]
  simp only [runFrom, List.append_nil]

theorem logFrom_append (s : S) (as bs : List A) :
    M.logFrom s (as ++ bs)
      = M.logFrom s as ++ M.logFrom (M.runFrom s as).1 bs := by
  induction as generalizing s with
  | nil => rfl
  | cons a as ih =>
      simp only [List.cons_append, logFrom, runFrom, ih, List.append_assoc]

theorem log_append (as bs : List A) :
    M.log (as ++ bs) = M.log as ++ M.logFrom (M.state as) bs :=
  M.logFrom_append M.init as bs

theorem log_concat (as : List A) (a : A) :
    M.log (as ++ [a])
      = M.log as ++ .inl a :: (M.step (M.state as) a).2.map .inr := by
  rw [log_append]
  simp only [logFrom, List.append_nil]

/-- The log without the actions is the trace. -/
theorem filterMap_logFrom {K : Type} (f : E → Option K) (s : S)
    (as : List A) :
    (M.logFrom s as).filterMap (Sum.elim (fun _ => none) f)
      = (M.runFrom s as).2.filterMap f := by
  induction as generalizing s with
  | nil => rfl
  | cons a as ih =>
      rw [logFrom, List.filterMap_cons_none rfl, List.filterMap_append, ih,
        List.filterMap_map, runFrom, List.filterMap_append]
      rfl

theorem mem_trace_iff {as : List A} {e : E} :
    e ∈ M.trace as ↔ .inr e ∈ M.log as := by
  have hmark := M.filterMap_logFrom some M.init as
  rw [List.filterMap_some] at hmark
  rw [trace, run, ← hmark, List.mem_filterMap]
  constructor
  · rintro ⟨x, hx, hxe⟩
    cases x with
    | inl a => cases hxe
    | inr e' =>
        injection hxe with hxe
        rwa [hxe] at hx
  · intro hmem
    exact ⟨.inr e, hmem, rfl⟩

/-- An event of the trace was emitted by an action of the run. -/
theorem exists_step_of_mem {as : List A} {e : E} (h : e ∈ M.trace as) :
    ∃ pre a post, as = pre ++ a :: post ∧ e ∈ (M.step (M.state pre) a).2 := by
  induction as using List.reverseRecOn with
  | nil => cases h
  | append_singleton as a ih =>
      rw [trace_concat, List.mem_append] at h
      rcases h with hold | hnew
      · obtain ⟨pre, b, post, rfl, hb⟩ := ih hold
        exact ⟨pre, b, post ++ [a], List.append_assoc _ _ _, hb⟩
      · exact ⟨as, a, [], rfl, hnew⟩

/-- The action that emitted an event, and what had been emitted by then. -/
theorem exists_step_of_cut {as : List A} {pre post : List E} {e : E}
    (h : M.trace as = pre ++ e :: post) :
    ∃ before a after early late, as = before ++ a :: after ∧
      (M.step (M.state before) a).2 = early ++ e :: late ∧
      pre = M.trace before ++ early := by
  induction as using List.reverseRecOn generalizing post with
  | nil => cases pre <;> cases h
  | append_singleton as a ih =>
      rw [trace_concat] at h
      rcases List.append_eq_append_iff.mp h with
        ⟨early, hpre, hnew⟩ | ⟨late, hold, hnew⟩
      · exact ⟨as, a, [], early, post, rfl, hnew, hpre⟩
      · cases late with
        | nil =>
            refine ⟨as, a, [], [], post, rfl, hnew.symm, ?_⟩
            rw [List.append_nil] at hold ⊢
            exact hold.symm
        | cons x late =>
            injection hnew with hx _
            subst hx
            obtain ⟨before, b, after, early, rest, rfl, hb, hpre⟩ := ih hold
            exact ⟨before, b, after ++ [a], early, rest,
              List.append_assoc _ _ _, hb, hpre⟩

/-- An action of the log is one the run took. -/
theorem inl_mem_logFrom {s : S} {as : List A} {a : A} :
    .inl a ∈ M.logFrom s as ↔ a ∈ as := by
  induction as generalizing s with
  | nil => simp [logFrom]
  | cons b as ih =>
      rw [logFrom, List.mem_cons, List.mem_append, ih, List.mem_cons,
        Sum.inl.injEq]
      refine or_congr_right (or_iff_right ?_)
      intro hmem
      obtain ⟨e, -, he⟩ := List.mem_map.mp hmem
      cases he

/-- The rule for invariants over the state and the whole history: it holds
of the start and the empty trace, and one action keeps it. -/
theorem run_induct {P : S → List E → Prop} (h0 : P M.init [])
    (hstep : ∀ s es a, P s es → P (M.step s a).1 (es ++ (M.step s a).2))
    (as : List A) : P (M.state as) (M.trace as) := by
  induction as using List.reverseRecOn with
  | nil => exact h0
  | append_singleton as a ih =>
      rw [state_concat, trace_concat]
      exact hstep _ _ _ ih

/-- The same rule when the step may use what is already known of every run:
the state and trace it starts from are those of some run. -/
theorem run_induct_reach {P : S → List E → Prop} (h0 : P M.init [])
    (hstep : ∀ as a, P (M.state as) (M.trace as) →
      P (M.step (M.state as) a).1
        (M.trace as ++ (M.step (M.state as) a).2))
    (as : List A) : P (M.state as) (M.trace as) := by
  induction as using List.reverseRecOn with
  | nil => exact h0
  | append_singleton as a ih =>
      rw [state_concat, trace_concat]
      exact hstep as a ih

/-- The rule for what stays once it holds: a property that steps keep holds in
every continuation of a run that reached it. -/
theorem stable_append {P : S → List E → Prop} {as : List A}
    (h : P (M.state as) (M.trace as))
    (hstep : ∀ bs a, P (M.state bs) (M.trace bs) →
      P (M.step (M.state bs) a).1
        (M.trace bs ++ (M.step (M.state bs) a).2))
    (more : List A) : P (M.state (as ++ more)) (M.trace (as ++ more)) := by
  induction more using List.reverseRecOn with
  | nil => rwa [List.append_nil]
  | append_singleton more a ih =>
      rw [← List.append_assoc, state_concat, trace_concat]
      exact hstep _ a ih

theorem stable_runFrom {P : S → List E → Prop}
    (hstep : ∀ s es a, P s es → P (M.step s a).1 (es ++ (M.step s a).2))
    {s : S} {es : List E} (h : P s es) (as : List A) :
    P (M.runFrom s as).1 (es ++ (M.runFrom s as).2) := by
  induction as generalizing s es with
  | nil =>
      rw [runFrom, List.append_nil]
      exact h
  | cons a as ih =>
      rw [runFrom, ← List.append_assoc]
      exact ih (hstep s es a h)

/-- Every step of the run met `G`, a condition on the state before the step
and on the action taken. -/
def Along (G : S → A → Prop) (as : List A) : Prop :=
  ∀ pre a post, as = pre ++ a :: post → G (M.state pre) a

theorem Along.left {M : Machine S A E} {G : S → A → Prop} {as bs : List A}
    (h : M.Along G (as ++ bs)) : M.Along G as := by
  intro pre a post heq
  refine h pre a (post ++ bs) ?_
  rw [heq, List.append_assoc, List.cons_append]

theorem Along.last {M : Machine S A E} {G : S → A → Prop} {as : List A}
    {a : A} (h : M.Along G (as ++ [a])) : G (M.state as) a :=
  h as a [] rfl

theorem Along.concat {M : Machine S A E} {G : S → A → Prop} {as : List A}
    {a : A} (h : M.Along G as) (ha : G (M.state as) a) :
    M.Along G (as ++ [a]) := by
  intro pre b post heq
  rcases List.append_eq_append_iff.mp heq with ⟨mid, rfl, hn⟩ | ⟨mid, rfl, hn⟩
  · cases mid with
    | nil =>
        injection hn with hab _
        rwa [List.append_nil, ← hab]
    | cons x mid =>
        injection hn with _ hn
        cases mid <;> cases hn
  · cases mid with
    | nil =>
        injection hn with hab _
        rwa [List.append_nil, ← hab] at ha
    | cons x mid =>
        injection hn with hx _
        subst hx
        exact h pre b mid rfl

/-- The history rule for the runs whose steps all meet a condition. -/
theorem run_induct_along {G : S → A → Prop} {P : S → List E → Prop}
    (h0 : P M.init [])
    (hstep : ∀ s es a, G s a → P s es →
      P (M.step s a).1 (es ++ (M.step s a).2))
    {as : List A} (h : M.Along G as) : P (M.state as) (M.trace as) := by
  induction as using List.reverseRecOn with
  | nil => exact h0
  | append_singleton as a ih =>
      rw [state_concat, trace_concat]
      exact hstep _ _ _ h.last (ih h.left)

/-- The rule for what stands before every event of such a run. -/
theorem always_along {G : S → A → Prop} {Q : List E → E → Prop}
    (hstep : ∀ as a, M.Along G (as ++ [a]) →
      ∀ pre e post, (M.step (M.state as) a).2 = pre ++ e :: post →
        Q (M.trace as ++ pre) e)
    {as : List A} (h : M.Along G as) : Always Q (M.trace as) := by
  induction as using List.reverseRecOn with
  | nil => exact always_nil Q
  | append_singleton as a ih =>
      rw [trace_concat]
      exact (ih h.left).append (hstep as a h)

/-- What no step of one machine undoes, no step of a machine undoes that is
seen as some steps of it. -/
theorem stable_of_view {S' A' E' : Type} {N : Machine S' A' E'}
    {P : S' → List E' → Prop}
    (hstep : ∀ s es a, P s es → P (N.step s a).1 (es ++ (N.step s a).2))
    {f : S → S'} {g : E → Option E'} {s : S} {a : A} {es : List E}
    (hview : ∃ bs, N.runFrom (f s) bs
      = (f (M.step s a).1, (M.step s a).2.filterMap g))
    (h : P (f s) (es.filterMap g)) :
    P (f (M.step s a).1) ((es ++ (M.step s a).2).filterMap g) := by
  obtain ⟨bs, hbs⟩ := hview
  have hlater := N.stable_runFrom hstep h bs
  rw [hbs] at hlater
  rw [List.filterMap_append]
  exact hlater

/-- A run of one machine is seen as a run of another: each of its steps, in
the view `f` of the states and `g` of the events, is some steps of the
other. -/
theorem exists_run_of_view {S' A' E' : Type} {N : Machine S' A' E'}
    {f : S → S'} {g : E → Option E'} (h0 : f M.init = N.init) {as : List A}
    (h : M.Along (fun s a => ∃ bs, N.runFrom (f s) bs
      = (f (M.step s a).1, (M.step s a).2.filterMap g)) as) :
    ∃ bs, N.state bs = f (M.state as) ∧
      N.trace bs = (M.trace as).filterMap g := by
  induction as using List.reverseRecOn with
  | nil => exact ⟨[], h0.symm, rfl⟩
  | append_singleton as a ih =>
      obtain ⟨bs, hstate, htrace⟩ := ih h.left
      obtain ⟨more, hmore⟩ := h.last
      rw [← hstate] at hmore
      refine ⟨bs ++ more, ?_, ?_⟩
      · rw [state_append, hmore, state_concat]
      · rw [trace_append, hmore, trace_concat, List.filterMap_append, htrace]

end Machine

end SapioTee.Lib
