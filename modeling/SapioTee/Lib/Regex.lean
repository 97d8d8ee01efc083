import Mathlib.Data.List.Basic

/-!
# Backtracking regular expressions

A pattern run on a thread answers every thread it can go on as, the one a
backtracking engine comes to first at the head: a repetition tries its
longest run first, an option is tried before it is left out, an alternative
left before right. A match at a position is the head.

Most patterns backtrack in name only. Where what follows a repetition cannot
start on a character the repetition takes, its shorter runs all die
(`run_many_seq`), and `Avoids` says of a pattern that it never takes a
certain character, so that a separator after it is the first one there is.
-/

namespace SapioTee.Lib

/-- A place in a text, what came before it backwards, and what the group took
on the way. -/
structure Thread where
  before : List Char
  rest : List Char
  captured : Option (List Char)
  deriving DecidableEq

inductive Regex where
  | empty
  /-- `^` -/
  | start
  /-- `$`: the end, or a line feed before it. -/
  | stop
  | one (p : Char → Bool)
  /-- `*` on a class of characters. -/
  | many (p : Char → Bool)
  | seq (a b : Regex)
  | alt (a b : Regex)
  | group (a : Regex)

namespace Thread

/-- The runs of a class from here, longest first. -/
def runs (p : Char → Bool) (captured : Option (List Char))
    (before : List Char) : List Char → List Thread
  | [] => [⟨before, [], captured⟩]
  | c :: cs =>
      if p c then
        runs p captured (c :: before) cs ++ [⟨before, c :: cs, captured⟩]
      else [⟨before, c :: cs, captured⟩]

/-- The thread behind the longest run of a class. -/
def skip (p : Char → Bool) (t : Thread) : Thread :=
  ⟨(t.rest.takeWhile p).reverse ++ t.before, t.rest.dropWhile p, t.captured⟩

/-- The thread behind one character of a class, if there is one. -/
def skipOne (p : Char → Bool) (t : Thread) : Thread :=
  match t.rest with
  | [] => t
  | c :: cs => if p c then ⟨c :: t.before, cs, t.captured⟩ else t

/-- What was taken from one thread to another. -/
def taken (t u : Thread) : List Char :=
  (u.before.take (u.before.length - t.before.length)).reverse

end Thread

namespace Regex

def run : Regex → Thread → List Thread
  | empty, t => [t]
  | start, t => if t.before = [] then [t] else []
  | stop, t => if t.rest = [] ∨ t.rest = ['\n'] then [t] else []
  | one p, t =>
      match t.rest with
      | [] => []
      | c :: cs => if p c then [⟨c :: t.before, cs, t.captured⟩] else []
  | many p, t => Thread.runs p t.captured t.before t.rest
  | seq a b, t => (a.run t).flatMap b.run
  | alt a b, t => a.run t ++ b.run t
  | group a, t => (a.run t).map fun u => { u with captured := some (t.taken u) }

/-- `?` -/
def opt (a : Regex) : Regex := alt a empty

/-- `+` on a class of characters. -/
def plus (p : Char → Bool) : Regex := seq (one p) (many p)

/-- One pattern after another. -/
def seqs (parts : List Regex) : Regex := parts.foldr seq empty

/-- The match at a place, if there is one. -/
def matchAt (r : Regex) (before rest : List Char) : Option Thread :=
  (r.run ⟨before, rest, none⟩).head?

/-- `re.match`. -/
def matchStart (r : Regex) (text : List Char) : Option Thread :=
  r.matchAt [] text

/-- The matches at every place from here on. -/
def findAll (r : Regex) : List Char → List Char → List Thread
  | before, [] => (r.matchAt before []).toList
  | before, c :: cs =>
      (r.matchAt before (c :: cs)).toList ++ findAll r (c :: before) cs

/-- `re.search`. -/
def search (r : Regex) (text : List Char) : Option Thread :=
  (r.findAll [] text).head?

/-! ## The equations of a run -/

theorem runs_cons (p : Char → Bool) (captured : Option (List Char))
    (before : List Char) (c : Char) (cs : List Char) :
    Thread.runs p captured before (c :: cs)
      = if p c then
          Thread.runs p captured (c :: before) cs ++
            [⟨before, c :: cs, captured⟩]
        else [⟨before, c :: cs, captured⟩] :=
  rfl

section

variable (a b : Regex) (p : Char → Bool) (t : Thread)

theorem run_empty : empty.run t = [t] :=
  rfl

theorem run_start : start.run t = if t.before = [] then [t] else [] :=
  rfl

theorem run_stop :
    stop.run t = if t.rest = [] ∨ t.rest = ['\n'] then [t] else [] :=
  rfl

theorem run_many :
    (many p).run t = Thread.runs p t.captured t.before t.rest :=
  rfl

theorem run_seq : (a.seq b).run t = (a.run t).flatMap b.run :=
  rfl

theorem run_alt : (a.alt b).run t = a.run t ++ b.run t :=
  rfl

theorem run_group :
    a.group.run t
      = (a.run t).map fun u => { u with captured := some (t.taken u) } :=
  rfl

theorem run_opt : a.opt.run t = a.run t ++ [t] :=
  rfl

variable {p} {t}

theorem run_one_nil (h : t.rest = []) : (one p).run t = [] := by
  obtain ⟨before, rest, captured⟩ := t
  cases h
  rfl

theorem run_one_cons {c : Char} {cs : List Char} (h : t.rest = c :: cs) :
    (one p).run t
      = if p c then [⟨c :: t.before, cs, t.captured⟩] else [] := by
  obtain ⟨before, rest, captured⟩ := t
  cases h
  rfl

end

/-! ## What a pattern takes -/

theorem mem_runs {p : Char → Bool} {captured : Option (List Char)}
    {before cs : List Char} {u : Thread}
    (h : u ∈ Thread.runs p captured before cs) :
    ∃ m, cs = m ++ u.rest ∧ ∀ c ∈ m, p c = true := by
  induction cs generalizing before with
  | nil =>
      rw [List.mem_singleton.mp h]
      exact ⟨[], rfl, List.forall_mem_nil _⟩
  | cons c cs ih =>
      rw [runs_cons] at h
      split at h
      next hc =>
        rcases List.mem_append.mp h with h | h
        · obtain ⟨m, rfl, hm⟩ := ih h
          exact ⟨c :: m, rfl, List.forall_mem_cons.mpr ⟨hc, hm⟩⟩
        · rw [List.mem_singleton.mp h]
          exact ⟨[], rfl, List.forall_mem_nil _⟩
      next =>
        rw [List.mem_singleton.mp h]
        exact ⟨[], rfl, List.forall_mem_nil _⟩

/-- The pattern never takes this character. -/
def Avoids (d : Char) (r : Regex) : Prop :=
  ∀ t, ∀ u ∈ r.run t, ∃ m, t.rest = m ++ u.rest ∧ d ∉ m

section

variable {d : Char} {a b r : Regex} {p : Char → Bool}

theorem avoids_empty : Avoids d empty := by
  intro t u hu
  rw [List.mem_singleton.mp hu]
  exact ⟨[], rfl, List.not_mem_nil⟩

theorem avoids_start : Avoids d start := by
  intro t u hu
  rw [run_start] at hu
  split at hu
  · rw [List.mem_singleton.mp hu]
    exact ⟨[], rfl, List.not_mem_nil⟩
  · cases hu

theorem mem_run_one {t u : Thread} (h : u ∈ (one p).run t) :
    ∃ c, t.rest = c :: u.rest ∧ p c = true := by
  cases hrest : t.rest with
  | nil =>
      rw [run_one_nil hrest] at h
      cases h
  | cons c cs =>
      rw [run_one_cons hrest] at h
      split at h
      next hc =>
        rw [List.mem_singleton.mp h]
        exact ⟨c, rfl, hc⟩
      next => cases h

theorem avoids_one (h : p d = false) : Avoids d (one p) := by
  intro t u hu
  obtain ⟨c, hrest, hc⟩ := mem_run_one hu
  refine ⟨[c], hrest, ?_⟩
  intro hmem
  rw [List.mem_singleton.mp hmem, hc] at h
  cases h

theorem avoids_many (h : p d = false) : Avoids d (many p) := by
  intro t u hu
  obtain ⟨m, hrest, hm⟩ := mem_runs hu
  refine ⟨m, hrest, ?_⟩
  intro hmem
  rw [hm d hmem] at h
  cases h

theorem Avoids.seq (ha : Avoids d a) (hb : Avoids d b) :
    Avoids d (a.seq b) := by
  intro t u hu
  obtain ⟨v, hv, hu⟩ := List.mem_flatMap.mp hu
  obtain ⟨m, hm, hdm⟩ := ha t v hv
  obtain ⟨n, hn, hdn⟩ := hb v u hu
  refine ⟨m ++ n, ?_, ?_⟩
  · rw [hm, hn, List.append_assoc]
  · rw [List.mem_append]
    exact not_or.mpr ⟨hdm, hdn⟩

theorem Avoids.alt (ha : Avoids d a) (hb : Avoids d b) :
    Avoids d (a.alt b) := by
  intro t u hu
  rw [run_alt, List.mem_append] at hu
  rcases hu with hu | hu
  · exact ha t u hu
  · exact hb t u hu

theorem Avoids.opt (ha : Avoids d a) : Avoids d a.opt :=
  ha.alt avoids_empty

theorem avoids_seqs {parts : List Regex} (h : ∀ part ∈ parts, Avoids d part) :
    Avoids d (seqs parts) := by
  induction parts with
  | nil => exact avoids_empty
  | cons part parts ih =>
      obtain ⟨hpart, hparts⟩ := List.forall_mem_cons.mp h
      exact hpart.seq (ih hparts)

/-- A text is cut at the first separator in one way. -/
theorem first_cut {m n xs ys : List Char} (hm : d ∉ m) (hn : d ∉ n)
    (h : m ++ d :: xs = n ++ d :: ys) : xs = ys := by
  induction m generalizing n with
  | nil =>
      cases n with
      | nil =>
          injection h
      | cons c n =>
          injection h with hc
          exact absurd (by rw [hc]; exact List.mem_cons_self) hn
  | cons c m ih =>
      cases n with
      | nil =>
          injection h with hc
          exact absurd (by rw [hc]; exact List.mem_cons_self) hm
      | cons e n =>
          injection h with _ h
          exact ih (fun hmem => hm (List.mem_cons_of_mem c hmem))
            (fun hmem => hn (List.mem_cons_of_mem e hmem)) h

/-- A separator after a pattern that avoids it is the first there is. -/
theorem Avoids.mem_run_seq_one (ha : Avoids d a) {t u : Thread}
    (hu : u ∈ (a.seq (one (· == d))).run t) :
    ∃ m, t.rest = m ++ d :: u.rest ∧ d ∉ m := by
  obtain ⟨v, hv, hu⟩ := List.mem_flatMap.mp hu
  obtain ⟨m, hm, hdm⟩ := ha t v hv
  obtain ⟨c, hrest, hc⟩ := mem_run_one hu
  refine ⟨m, ?_, hdm⟩
  rw [hm, hrest, eq_of_beq hc]

end

/-! ## Repetitions that do not backtrack -/

/-- The pattern has no way on from a character of this class. -/
def Stuck (r : Regex) (p : Char → Bool) : Prop :=
  ∀ t c cs, t.rest = c :: cs → p c = true → r.run t = []

section

variable {a b : Regex} {p q : Char → Bool}

theorem stuck_one (h : ∀ c, p c = true → q c = false) :
    Stuck (one q) p := by
  intro t c cs hrest hc
  rw [run_one_cons hrest, h c hc]
  rfl

theorem Stuck.seq (ha : Stuck a p) : Stuck (a.seq b) p := by
  intro t c cs hrest hc
  rw [run_seq, ha t c cs hrest hc, List.flatMap_nil]

theorem Stuck.group (ha : Stuck a p) : Stuck a.group p := by
  intro t c cs hrest hc
  rw [run_group, ha t c cs hrest hc, List.map_nil]

theorem stuck_opt_seq (ha : Stuck a p) (hb : Stuck b p) :
    Stuck (a.opt.seq b) p := by
  intro t c cs hrest hc
  rw [run_seq, run_opt, ha t c cs hrest hc, List.nil_append,
    List.flatMap_singleton, hb t c cs hrest hc]

/-- Only the longest run goes on. -/
theorem run_many_seq (hb : Stuck b p) (t : Thread) :
    ((many p).seq b).run t = b.run (t.skip p) := by
  obtain ⟨before, rest, captured⟩ := t
  rw [run_seq, run_many]
  dsimp only
  induction rest generalizing before with
  | nil => exact List.flatMap_singleton _ _
  | cons c cs ih =>
      rw [runs_cons]
      split
      next hc =>
        have hskip : Thread.skip p ⟨before, c :: cs, captured⟩
            = Thread.skip p ⟨c :: before, cs, captured⟩ := by
          simp [Thread.skip, hc]
        have hstuck := hb ⟨before, c :: cs, captured⟩ c cs rfl hc
        rw [List.flatMap_append, ih, hskip, List.flatMap_singleton, hstuck,
          List.append_nil]
      next hc =>
        have hskip : Thread.skip p ⟨before, c :: cs, captured⟩
            = ⟨before, c :: cs, captured⟩ := by
          simp [Thread.skip, hc]
        rw [hskip, List.flatMap_singleton]

/-- An option that is there is taken. -/
theorem run_opt_one_seq (hb : Stuck b p) (t : Thread) :
    ((one p).opt.seq b).run t = b.run (t.skipOne p) := by
  rw [run_seq, run_opt, List.flatMap_append, List.flatMap_singleton,
    Thread.skipOne]
  cases hrest : t.rest with
  | nil =>
      rw [run_one_nil hrest]
      rfl
  | cons c cs =>
      rw [run_one_cons hrest]
      dsimp only
      split
      next hc =>
        rw [hb t c cs hrest hc, List.append_nil, List.flatMap_singleton]
      next => rw [List.flatMap_nil, List.nil_append]

theorem head?_runs (captured : Option (List Char)) (before cs : List Char) :
    (Thread.runs p captured before cs).head?
      = some (Thread.skip p ⟨before, cs, captured⟩) := by
  induction cs generalizing before with
  | nil => rfl
  | cons c cs ih =>
      rw [runs_cons]
      split
      next hc =>
        rw [List.head?_append, ih, Option.some_or]
        simp [Thread.skip, hc]
      next hc => simp [Thread.skip, hc]

/-- A group around a repetition holds the longest run. -/
theorem head?_group_plus {t u : Thread}
    (h : ((plus p).group.run t).head? = some u) :
    u.captured = some (t.rest.takeWhile p) := by
  rw [run_group, plus, run_seq, List.head?_map] at h
  obtain ⟨v, hv, rfl⟩ := Option.map_eq_some_iff.mp h
  cases hrest : t.rest with
  | nil =>
      rw [run_one_nil hrest] at hv
      cases hv
  | cons c cs =>
      rw [run_one_cons hrest] at hv
      split at hv
      next hc =>
        rw [List.flatMap_singleton, run_many, head?_runs] at hv
        injection hv with hv
        subst hv
        have hlength : ((cs.takeWhile p).reverse ++ c :: t.before).length
            - t.before.length = (c :: cs.takeWhile p).reverse.length := by
          simp only [List.length_append, List.length_reverse, List.length_cons]
          omega
        have hsplit : (cs.takeWhile p).reverse ++ c :: t.before
            = (c :: cs.takeWhile p).reverse ++ t.before := by
          rw [List.reverse_cons, List.append_assoc]
          rfl
        show some (Thread.taken t (Thread.skip p ⟨c :: t.before, cs, _⟩)) = _
        rw [Thread.taken, Thread.skip]
        dsimp only
        rw [hlength, hsplit, List.take_left, List.reverse_reverse,
          List.takeWhile_cons_of_pos hc]
      next => cases hv

end

/-- A class repeated to the end of a text without line feeds. -/
theorem run_times_ne_nil {p : Char → Bool} (n : Nat) {t : Thread}
    (h : '\n' ∉ t.rest) :
    (seqs (List.replicate n (one p) ++ [stop])).run t ≠ [] ↔
      t.rest.length = n ∧ ∀ c ∈ t.rest, p c = true := by
  induction n generalizing t with
  | zero =>
      show (stop.run t).flatMap empty.run ≠ [] ↔ _
      cases hrest : t.rest with
      | nil =>
          rw [run_stop, if_pos (.inl hrest), List.flatMap_singleton]
          simp [run_empty]
      | cons c cs =>
          have hnot : ¬(t.rest = [] ∨ t.rest = ['\n']) := by
            intro hend
            rcases hend with hend | hend
            · rw [hend] at hrest
              cases hrest
            · exact h (by rw [hend]; exact List.mem_singleton_self _)
          rw [run_stop, if_neg hnot]
          simp
  | succ n ih =>
      show ((one p).run t).flatMap
        (seqs (List.replicate n (one p) ++ [stop])).run ≠ [] ↔ _
      cases hrest : t.rest with
      | nil =>
          rw [run_one_nil hrest]
          simp
      | cons c cs =>
          rw [hrest] at h
          have htail : '\n' ∉ cs := fun hmem => h (List.mem_cons_of_mem _ hmem)
          rw [run_one_cons hrest]
          by_cases hc : p c = true
          · rw [if_pos hc, List.flatMap_singleton, ih htail]
            simp [hc]
          · rw [if_neg hc]
            simp [hc]

/-! ## Places -/

/-- A match that starts in a text starts in its first part or its second. -/
theorem mem_findAll_append {r : Regex} {before pre text : List Char}
    {u : Thread} :
    u ∈ r.findAll before (pre ++ text) ↔
      (∃ x y, pre = x ++ y ∧ y ≠ [] ∧
        r.matchAt (x.reverse ++ before) (y ++ text) = some u) ∨
      u ∈ r.findAll (pre.reverse ++ before) text := by
  induction pre generalizing before with
  | nil =>
      refine ⟨.inr, ?_⟩
      intro h
      rcases h with ⟨x, y, hpre, hy, -⟩ | h
      · exact absurd (List.append_eq_nil_iff.mp hpre.symm).2 hy
      · exact h
  | cons c pre ih =>
      rw [List.cons_append, findAll, List.mem_append, ih, List.reverse_cons,
        List.append_assoc]
      refine ⟨?_, ?_⟩
      · intro h
        rcases h with h | ⟨x, y, rfl, hy, h⟩ | h
        · exact .inl ⟨[], c :: pre, rfl, List.cons_ne_nil _ _,
            Option.mem_toList.mp h⟩
        · refine .inl ⟨c :: x, y, rfl, hy, ?_⟩
          rw [List.reverse_cons, List.append_assoc]
          exact h
        · exact .inr h
      · intro h
        rcases h with ⟨x, y, hpre, hy, h⟩ | h
        · cases x with
          | nil =>
              rw [← show c :: pre = y from hpre] at h
              exact .inl (Option.mem_toList.mpr h)
          | cons d x =>
              injection hpre with hd hpre
              subst hd
              refine .inr (.inl ⟨x, y, hpre, hy, ?_⟩)
              rw [List.reverse_cons, List.append_assoc] at h
              exact h
        · exact .inr (.inr h)

end Regex

end SapioTee.Lib
