import SapioTee.Model.Lint

/-!
# What the action-pin lint sees (`scripts/check_pinned_actions.py`)

Every key ends at the first colon behind its start. So does the key `uses`
takes, at the first colon of the line, and every other key of the line starts
behind that colon: `further` is where no pattern looks. A line is overlooked
when one of those keys is followed by a reference that is not pinned, or when
a key is followed by a bare commit, which the test of what follows the last
`@` takes for the commit of an action.
-/

namespace SapioTee.Lint

open Lib

/-! ## References -/

/-- `["']?` -/
def afterQuote : List Char → List Char
  | [] => []
  | c :: cs => if c == '\x22' || c == '\x27' then cs else c :: cs

/-- The reference behind the colon of a key. -/
def reference (rest : List Char) : List Char :=
  (afterQuote (lstrip rest)).takeWhile referenceChar

/-- Forty hexadecimal digits. -/
def IsCommit (text : List Char) : Prop :=
  text.length = 40 ∧ ∀ c ∈ text, hexDigit c = true

/-- A local path, or a name and a commit. -/
def Pinned (ref : List Char) : Prop :=
  ['.', '/'] <+: ref ∨ ∃ name commit, ref = name ++ '@' :: commit ∧
    IsCommit commit

theorem mem_reference {rest : List Char} {c : Char} (h : c ∈ reference rest) :
    referenceChar c = true :=
  List.all_eq_true.mp List.all_takeWhile c h

theorem IsCommit.at_notMem {text : List Char} (h : IsCommit text) :
    '@' ∉ text := by
  intro hmem
  exact absurd (h.2 _ hmem) (by decide)

theorem not_pinned_of_isCommit {text : List Char} (h : IsCommit text) :
    ¬Pinned text := by
  intro hpinned
  rcases hpinned with ⟨tail, rfl⟩ | ⟨name, commit, rfl, -⟩
  · exact absurd (h.2 '.' (by simp)) (by decide)
  · exact h.at_notMem (by simp)

/-- The text is what follows its last `@`, or that with a name before it. -/
theorem afterLast_eq (text : List Char) :
    afterLast '@' text = text ∨
      ∃ name, text = name ++ '@' :: afterLast '@' text := by
  have hsplit := @List.takeWhile_append_dropWhile _ (· != '@') text.reverse
  have htext : (text.reverse.dropWhile (· != '@')).reverse ++
      afterLast '@' text = text := by
    rw [afterLast, ← List.reverse_append, hsplit, List.reverse_reverse]
  cases hrest : text.reverse.dropWhile (· != '@') with
  | nil =>
      rw [hrest] at htext
      exact .inl htext
  | cons c cs =>
      have hc : c = '@' := by
        have hnot := List.head?_dropWhile_not (· != '@') text.reverse
        rw [hrest] at hnot
        simpa using hnot
      rw [hrest, hc, List.reverse_cons, List.append_assoc] at htext
      exact .inr ⟨cs.reverse, htext.symm⟩

/-- What passes the test of the commit is pinned or bare. -/
theorem pinned_or_isCommit {ref : List Char}
    (h : IsCommit (afterLast '@' ref)) : Pinned ref ∨ IsCommit ref := by
  rcases afterLast_eq ref with heq | ⟨name, heq⟩
  · rw [heq] at h
    exact .inr h
  · exact .inl (.inr ⟨name, _, heq, h⟩)

theorem Pinned.local_or_isCommit {ref : List Char} (h : Pinned ref) :
    ['.', '/'] <+: ref ∨ IsCommit (afterLast '@' ref) := by
  rcases h with hlocal | ⟨name, commit, rfl, hcommit⟩
  · exact .inl hlocal
  · refine .inr ?_
    have hall : ∀ c ∈ commit.reverse, (c != '@') = true := by
      intro c hc
      apply bne_iff_ne.mpr
      intro hat
      rw [hat, List.mem_reverse] at hc
      exact hcommit.at_notMem hc
    rw [afterLast, List.reverse_append, List.reverse_cons, List.append_assoc,
      List.takeWhile_append_of_pos hall, List.singleton_append,
      List.takeWhile_cons_of_neg (by simp), List.append_nil,
      List.reverse_reverse]
    exact hcommit

/-! ## The patterns -/

theorem sha_matchStart {text : List Char} (h : '\n' ∉ text) :
    (sha.matchStart text).isSome = true ↔ IsCommit text := by
  have hrun : sha.run ⟨[], text, none⟩ = (Regex.seqs
      (List.replicate 40 (.one hexDigit) ++ [.stop])).run ⟨[], text, none⟩ := by
    show List.flatMap _ [(⟨[], text, none⟩ : Thread)] = _
    exact List.flatMap_singleton _ _
  rw [Regex.matchStart, Regex.matchAt, hrun, List.isSome_head?]
  exact Regex.run_times_ne_nil 40 h

theorem lineFeed_notMem_afterLast {rest : List Char} :
    '\n' ∉ afterLast '@' (reference rest) := by
  intro hmem
  rw [afterLast, List.mem_reverse] at hmem
  have hmem := List.mem_reverse.mp (List.takeWhile_subset _ hmem)
  exact absurd (mem_reference hmem) (by decide)

theorem avoids_letters {same : Char → Char → Bool} {text : String}
    (h : (text.toList.all fun letter => !same letter ':') = true) :
    Regex.Avoids ':' (letters text same) := by
  apply Regex.avoids_seqs
  intro part hpart
  obtain ⟨letter, hletter, rfl⟩ := List.mem_map.mp hpart
  apply Regex.avoids_one
  simpa using List.all_eq_true.mp h letter hletter

theorem avoids_quoteMark : Regex.Avoids ':' quoteMark :=
  (Regex.avoids_one (by decide)).opt

theorem avoids_space : Regex.Avoids ':' space :=
  Regex.avoids_many (by decide)

theorem avoids_usesLead : Regex.Avoids ':' usesLead := by
  apply Regex.avoids_seqs
  simp only [List.forall_mem_cons, List.not_mem_nil, false_implies,
    implies_true, and_true]
  exact ⟨Regex.avoids_start, avoids_space,
    (Regex.avoids_one (by decide)).opt, avoids_space,
    ((Regex.avoids_one (by decide)).seq avoids_space).opt, avoids_quoteMark,
    avoids_letters (by decide), avoids_quoteMark, avoids_space⟩

theorem avoids_shapeLead : Regex.Avoids ':' shapeLead := by
  apply Regex.avoids_seqs
  simp only [List.forall_mem_cons, List.not_mem_nil, false_implies,
    implies_true, and_true]
  exact ⟨Regex.avoids_start.alt (Regex.avoids_one (by decide)),
    avoids_quoteMark, avoids_letters (by decide), avoids_quoteMark,
    avoids_space⟩

/-- A key ends at the first colon from its start on. -/
theorem usesShape_matchAt {before text : List Char} {key : Thread}
    (h : usesShape.matchAt before text = some key) :
    ∃ m, text = m ++ ':' :: key.rest ∧ ':' ∉ m :=
  avoids_shapeLead.mem_run_seq_one (List.mem_of_head? h)

/-- What `USES` has behind its colon. -/
def usesTail : Regex :=
  .seqs [space, quoteMark, (Regex.plus referenceChar).group]

theorem stuck_reference {p : Char → Bool}
    (h : ∀ c, p c = true → referenceChar c = false) :
    Regex.Stuck ((Regex.plus referenceChar).group.seq .empty) p :=
  (Regex.stuck_one h).seq.group.seq

theorem rest_skipOne_quote (t : Thread) :
    (t.skipOne fun c => c == '\x22' || c == '\x27').rest
      = afterQuote t.rest := by
  rw [Thread.skipOne]
  cases hrest : t.rest with
  | nil => exact hrest
  | cons c cs =>
      rw [afterQuote]
      dsimp only
      split
      · rfl
      · exact hrest

/-- The group holds the reference behind the colon. -/
theorem usesTail_captured {t found : Thread}
    (h : (usesTail.run t).head? = some found) :
    found.captured = some (reference t.rest) := by
  have hspace : ∀ c, isSpace c = true → referenceChar c = false := by
    intro c hc
    rw [referenceChar, hc]
    rfl
  have hquote : ∀ c, (c == '\x22' || c == '\x27') = true →
      referenceChar c = false := by
    intro c hc
    rw [referenceChar, Bool.or_assoc (isSpace c), hc]
    simp
  have hapart : ∀ c, isSpace c = true →
      (c == '\x22' || c == '\x27') = false := by
    intro c hc
    rw [Bool.eq_false_iff]
    intro hmark
    rcases Bool.or_eq_true_iff.mp hmark with hmark | hmark
    · rw [eq_of_beq hmark] at hc
      exact absurd hc (by decide)
    · rw [eq_of_beq hmark] at hc
      exact absurd hc (by decide)
  have hrun : usesTail.run t = (Regex.plus referenceChar).group.run
      ((t.skip isSpace).skipOne fun c => c == '\x22' || c == '\x27') := by
    show (space.seq (quoteMark.seq
      ((Regex.plus referenceChar).group.seq .empty))).run t = _
    rw [space, quoteMark, Regex.run_many_seq (Regex.stuck_opt_seq
      (Regex.stuck_one hapart) (stuck_reference hspace)),
      Regex.run_opt_one_seq (stuck_reference hquote)]
    exact List.flatMap_singleton' _
  rw [hrun] at h
  rw [Regex.head?_group_plus h, rest_skipOne_quote]
  rfl

theorem uses_matchStart {line : List Char} {found : Thread}
    (h : uses.matchStart line = some found) :
    ∃ m rest, line = m ++ ':' :: rest ∧ ':' ∉ m ∧
      found.captured = some (reference rest) := by
  have hrun : uses.run ⟨[], line, none⟩
      = ((usesLead.seq colon).run ⟨[], line, none⟩).flatMap usesTail.run := rfl
  rw [Regex.matchStart, Regex.matchAt, hrun, List.head?_flatMap] at h
  obtain ⟨t, ht, h⟩ := List.exists_of_findSome?_eq_some h
  obtain ⟨m, hline, hm⟩ := avoids_usesLead.mem_run_seq_one ht
  exact ⟨m, t.rest, hline, hm, usesTail_captured h⟩

/-! ## The keys of a line -/

/-- Every match of `USES_SHAPE`. -/
def usesKeys (line : List Char) : List Thread := usesShape.findAll [] line

/-- The keys behind the first colon of a line. -/
def further (line : List Char) : List Thread :=
  usesShape.findAll (':' :: (line.takeWhile (· != ':')).reverse)
    ((line.dropWhile (· != ':')).drop 1)

theorem further_cut {m rest : List Char} (hm : ':' ∉ m) :
    further (m ++ ':' :: rest) = usesShape.findAll (':' :: m.reverse) rest := by
  have hall : ∀ c ∈ m, (c != ':') = true := by
    intro c hc
    apply bne_iff_ne.mpr
    intro hcolon
    rw [hcolon] at hc
    exact hm hc
  rw [further, List.takeWhile_append_of_pos hall,
    List.dropWhile_append_of_pos hall, List.takeWhile_cons_of_neg (by simp),
    List.dropWhile_cons_of_neg (by simp), List.append_nil]
  rfl

/-- A key starts behind the first colon, or ends there. -/
theorem mem_usesKeys_cut {m rest : List Char} (hm : ':' ∉ m) {key : Thread}
    (hkey : key ∈ usesKeys (m ++ ':' :: rest)) :
    key.rest = rest ∨ key ∈ further (m ++ ':' :: rest) := by
  rw [further_cut hm]
  rw [usesKeys, show m ++ ':' :: rest = (m ++ [':']) ++ rest by simp,
    Regex.mem_findAll_append] at hkey
  rcases hkey with ⟨x, y, hsplit, hy, hmatch⟩ | hkey
  · obtain ⟨n, hn, hcolon⟩ := usesShape_matchAt hmatch
    rcases List.eq_nil_or_concat y with rfl | ⟨z, b, rfl⟩
    · exact absurd rfl hy
    · rw [List.concat_eq_append, ← List.append_assoc] at hsplit
      obtain ⟨rfl, hb⟩ := List.append_inj' hsplit rfl
      injection hb with hb
      have hz : ':' ∉ z := fun hmem => hm (List.mem_append_right x hmem)
      rw [List.concat_eq_append, ← hb, List.append_assoc,
        List.singleton_append] at hn
      exact .inl (Regex.first_cut hz hcolon hn).symm
  · rw [List.reverse_append, List.append_nil] at hkey
    exact .inr hkey

/-- Every key behind the first colon is a key. -/
theorem further_subset {m rest : List Char} (hm : ':' ∉ m) {key : Thread}
    (h : key ∈ further (m ++ ':' :: rest)) :
    key ∈ usesKeys (m ++ ':' :: rest) := by
  rw [further_cut hm] at h
  rw [usesKeys, show m ++ ':' :: rest = (m ++ [':']) ++ rest by simp,
    Regex.mem_findAll_append]
  refine .inr ?_
  rw [List.reverse_append, List.append_nil]
  exact h

/-! ## What the lint reports -/

/-- The line is reported: `USES` takes a reference that is neither local nor
ends in a commit, or takes none where there is a key and no comment. -/
def Caught (line : List Char) : Prop :=
  match uses.matchStart line with
  | none => usesKeys line ≠ [] ∧ comment line = false
  | some found =>
      ¬['.', '/'] <+: found.captured.getD [] ∧
        ¬IsCommit (afterLast '@' (found.captured.getD []))

/-- `USES` takes a key, and another is followed by a reference that is not
pinned, or one by a bare commit. -/
def Overlooked (line : List Char) : Prop :=
  (uses.matchStart line).isSome = true ∧
    ((∃ key ∈ usesKeys line, IsCommit (reference key.rest)) ∨
      ∃ key ∈ further line, ¬Pinned (reference key.rest))

theorem lineFailure_eq_none (repr : List Char → String) (workflow : String)
    (lineNumber : Nat) (line : List Char) :
    lineFailure repr workflow lineNumber line = none ↔ ¬Caught line := by
  rw [lineFailure, Caught]
  cases hmatch : uses.matchStart line with
  | none =>
      have hsearch : (usesShape.search line).isSome = true ↔
          usesKeys line ≠ [] := by
        rw [Regex.search, List.isSome_head?]
        rfl
      dsimp only
      split
      next hreport =>
        rw [Bool.and_eq_true, hsearch, Bool.not_eq_true'] at hreport
        exact iff_of_false (fun h => by cases h) fun h => h hreport
      next hreport =>
        rw [Bool.and_eq_true, hsearch, Bool.not_eq_true'] at hreport
        exact iff_of_true rfl hreport
  | some found =>
      obtain ⟨m, rest, -, -, hcaptured⟩ := uses_matchStart hmatch
      have hsha := sha_matchStart (@lineFeed_notMem_afterLast rest)
      dsimp only
      rw [hcaptured, Option.getD_some, ← hsha, ← List.isPrefixOf_iff_prefix]
      split
      next hlocal => exact iff_of_true rfl fun h => h.1 hlocal
      next hlocal =>
        split
        next hcommit => exact iff_of_true rfl fun h => h.2 hcommit
        next hcommit =>
          exact iff_of_false (fun h => by cases h)
            fun h => h ⟨hlocal, hcommit⟩

theorem comment_eq_false {line : List Char} (h : '#' ∉ line) :
    comment line = false := by
  rw [comment, beq_eq_false_iff_ne]
  intro hhead
  exact h (List.dropWhile_subset _ (List.mem_of_head? hhead))

/-- On a line that is not reported, the keys are pinned or one of them is
overlooked. -/
theorem pinned_iff_not_overlooked {line : List Char} (hhash : '#' ∉ line)
    (hcaught : ¬Caught line) :
    (∀ key ∈ usesKeys line, Pinned (reference key.rest)) ↔
      ¬Overlooked line := by
  rw [Caught] at hcaught
  cases hmatch : uses.matchStart line with
  | none =>
      rw [hmatch] at hcaught
      have hnone : usesKeys line = [] := by
        by_contra hkeys
        exact hcaught ⟨hkeys, comment_eq_false hhash⟩
      refine iff_of_true ?_ ?_
      · rw [hnone]
        exact List.forall_mem_nil _
      · intro hover
        rw [Overlooked, hmatch] at hover
        cases hover.1
  | some found =>
      obtain ⟨m, rest, rfl, hm, hcaptured⟩ := uses_matchStart hmatch
      rw [hmatch] at hcaught
      dsimp only at hcaught
      rw [hcaptured, Option.getD_some] at hcaught
      refine ⟨?_, ?_⟩
      · intro hpinned hover
        rcases hover.2 with ⟨key, hkey, hcommit⟩ | ⟨key, hkey, hloose⟩
        · exact not_pinned_of_isCommit hcommit (hpinned key hkey)
        · exact hloose (hpinned key (further_subset hm hkey))
      · intro hover key hkey
        have htaken : (uses.matchStart (m ++ ':' :: rest)).isSome = true := by
          rw [hmatch]
          rfl
        rcases mem_usesKeys_cut hm hkey with hrest | hlater
        · by_contra hloose
          rw [hrest] at hloose
          apply hcaught
          refine ⟨fun hlocal => hloose (.inl hlocal), ?_⟩
          intro hcommit
          rcases pinned_or_isCommit hcommit with hpinned | hbare
          · exact hloose hpinned
          · rw [← hrest] at hbare
            exact hover ⟨htaken, .inl ⟨key, hkey, hbare⟩⟩
        · by_contra hloose
          exact hover ⟨htaken, .inr ⟨key, hlater, hloose⟩⟩

section

variable (repr : List Char → String) (readText : String → String)
  (scanFiles : List String)

theorem fileFailures_eq_nil (path : String) :
    fileFailures repr readText path = [] ↔
      ∀ line ∈ splitlines (readText path), ¬Caught line := by
  rw [fileFailures, List.filterMap_eq_nil_iff]
  refine ⟨?_, ?_⟩
  · intro h line hline
    obtain ⟨i, hi⟩ := List.mem_iff_getElem?.mp hline
    have hentry : (line, 1 + i) ∈ (splitlines (readText path)).zipIdx 1 := by
      apply List.mem_zipIdx_iff_le_and_getElem?_sub.mpr
      rw [Nat.add_sub_cancel_left]
      exact ⟨Nat.le_add_right 1 i, hi⟩
    have hnone := h (line, 1 + i) hentry
    exact (lineFailure_eq_none repr path (1 + i) line).mp hnone
  · intro h entry hentry
    apply (lineFailure_eq_none repr path entry.2 entry.1).mpr
    exact h entry.1 (List.fst_mem_of_mem_zipIdx hentry)

theorem main_code_eq_zero :
    (main repr readText scanFiles).code = 0 ↔
      ∀ path ∈ scanFiles, ∀ line ∈ splitlines (readText path),
        ¬Caught line := by
  have hfailures : scanFiles.eraseDups.flatMap (fileFailures repr readText)
      = [] ↔ ∀ path ∈ scanFiles, ∀ line ∈ splitlines (readText path),
        ¬Caught line := by
    rw [List.flatMap_eq_nil_iff]
    simp only [List.mem_eraseDups, fileFailures_eq_nil]
  rw [← hfailures, main]
  split
  next hnil => exact iff_of_true rfl hnil
  next hne => exact iff_of_false Nat.one_ne_zero hne

/-- The lint answers for every reference it reads the lines of, unless it
overlooks one on a line and reports none. -/
theorem main_complete_iff :
    ((main repr readText scanFiles).code = 0 →
      ∀ path ∈ scanFiles, ∀ line ∈ splitlines (readText path), '#' ∉ line →
        ∀ key ∈ usesKeys line, Pinned (reference key.rest)) ↔
    ((∃ path ∈ scanFiles, ∃ line ∈ splitlines (readText path), Caught line) ∨
      ∀ path ∈ scanFiles, ∀ line ∈ splitlines (readText path), '#' ∉ line →
        ¬Overlooked line) := by
  rw [main_code_eq_zero]
  refine ⟨?_, ?_⟩
  · intro h
    by_cases hcaught : ∃ path ∈ scanFiles,
        ∃ line ∈ splitlines (readText path), Caught line
    · exact .inl hcaught
    · have hclean : ∀ path ∈ scanFiles,
          ∀ line ∈ splitlines (readText path), ¬Caught line := by
        intro path hpath line hline hline'
        exact hcaught ⟨path, hpath, line, hline, hline'⟩
      refine .inr ?_
      intro path hpath line hline hhash
      exact (pinned_iff_not_overlooked hhash (hclean path hpath line hline)).mp
        (h hclean path hpath line hline hhash)
  · intro h hclean path hpath line hline hhash
    rcases h with ⟨path', hpath', line', hline', hcaught⟩ | h
    · exact absurd hcaught (hclean path' hpath' line' hline')
    · exact (pinned_iff_not_overlooked hhash
        (hclean path hpath line hline)).mpr (h path hpath line hline hhash)

end

/-- Python's `repr` of a text without quotes and escapes. -/
def quoted (text : List Char) : String := "'" ++ String.ofList text ++ "'"

/-- Two steps of a flow sequence on one line. -/
def flowLine : List Char :=
  "  \x7buses: ./local\x7d, \x7buses: actions/checkout@v5\x7d".toList

def flowText : String := "steps: [\n" ++ String.ofList flowLine ++ "\n]\n"

theorem flow_sequence_overlooked :
    ¬((main quoted (fun _ => flowText) [".github/workflows/x.yml"]).code = 0 →
      ∀ path ∈ [".github/workflows/x.yml"], ∀ line ∈ splitlines flowText,
        '#' ∉ line → ∀ key ∈ usesKeys line, Pinned (reference key.rest)) := by
  intro h
  have hkey : ∃ key ∈ usesKeys flowLine,
      reference key.rest = "actions/checkout@v5".toList := by
    decide +kernel
  obtain ⟨key, hkey, hreference⟩ := hkey
  have hpinned := h (by decide +kernel) _ List.mem_cons_self flowLine
    (by decide +kernel) (by decide) key hkey
  rw [hreference] at hpinned
  rcases hpinned.local_or_isCommit with hlocal | ⟨hlength, -⟩
  · exact absurd hlocal (by decide)
  · exact absurd hlength (by decide)

/-- A commit without an action passes. -/
example : (main quoted (fun _ => "- uses: " ++
    "fbc6f3992d24b796d5a048ff273f7fcc4a7b6c09") ["x.yml"]).code = 0 := by
  decide +kernel

end SapioTee.Lint
