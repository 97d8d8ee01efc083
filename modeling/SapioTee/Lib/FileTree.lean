import Mathlib.Data.List.AList
import Mathlib.Data.List.Infix

/-!
# Directory trees

A tree is the finite set of its paths with what stands at each, closed under
taking the directory a path is in: whatever exists is in a directory that
exists. So the path of a node is a path of real directories.

A lookup is something else: some leaves are links, and an operating system
that looks a path up goes on at a link's target. `follow` is that lookup, and
says where it ends, up to as many links as one lookup may pass. A path with
no link on the way (`Unlinked`) is its own end.

Two operations change a tree: `add` puts a node where there was none, in a
directory that is there, and `replace` puts one leaf in another's place.
`below` lists everything under a path, by its path from there.
-/

namespace SapioTee.Lib

inductive Node (β : Type) where
  | dir
  | leaf (content : β)
  deriving DecidableEq

structure FileTree (α β : Type) where
  nodes : AList (fun _ : List α => Node β)
  closed : ∀ path name node,
    (⟨path ++ [name], node⟩ : Sigma _) ∈ nodes.entries →
      (⟨path, .dir⟩ : Sigma _) ∈ nodes.entries

namespace FileTree

variable {α β : Type} [DecidableEq α]

/-- What stands at a path. -/
def node (t : FileTree α β) (path : List α) : Option (Node β) :=
  t.nodes.lookup path

theorem node_eq_some {t : FileTree α β} {path : List α} {n : Node β} :
    t.node path = some n ↔ (⟨path, n⟩ : Sigma _) ∈ t.nodes.entries :=
  AList.mem_lookup_iff

/-- The directory a node is in. -/
theorem node_parent {t : FileTree α β} {path : List α} {name : α}
    {n : Node β} (h : t.node (path ++ [name]) = some n) :
    t.node path = some .dir :=
  node_eq_some.mpr (t.closed path name n (node_eq_some.mp h))

/-- Every directory on the way. -/
theorem node_ancestor {t : FileTree α β} {path rest : List α} {n : Node β}
    (h : t.node (path ++ rest) = some n) (hrest : rest ≠ []) :
    t.node path = some .dir := by
  induction rest using List.reverseRecOn generalizing n with
  | nil => exact absurd rfl hrest
  | append_singleton rest name ih =>
      rw [← List.append_assoc] at h
      have hparent := node_parent h
      by_cases hnil : rest = []
      · rw [hnil, List.append_nil] at hparent
        exact hparent
      · exact ih hparent hnil

/-! ## Looking a path up -/

/-- A step of a link's target: `.`, `..` or a name. -/
inductive Step (α : Type) where
  | here
  | up
  | into (name : α)
  deriving DecidableEq

structure Target (α : Type) where
  absolute : Bool
  steps : List (Step α)
  deriving DecidableEq

variable (link : β → Option (Target α)) (t : FileTree α β)

/-- Take steps from a directory. `onLink` goes on where a link was met; the
last step stays at a link unless `final` says to follow it. -/
def pass (final : Bool) (onLink : List α → List (Step α) → Option (List α)) :
    List α → List (Step α) → Option (List α)
  | dir, [] => some dir
  | dir, .here :: rest => pass final onLink dir rest
  | dir, .up :: rest => pass final onLink dir.dropLast rest
  | dir, .into name :: rest =>
      match t.node (dir ++ [name]) with
      | none => none
      | some .dir => pass final onLink (dir ++ [name]) rest
      | some (.leaf content) =>
          match link content with
          | none => if rest.isEmpty then some (dir ++ [name]) else none
          | some target =>
              if rest.isEmpty && !final then some (dir ++ [name])
              else onLink (if target.absolute then [] else dir)
                (target.steps ++ rest)

/-- The same, past a number of links. -/
def follow (final : Bool) : Nat → List α → List (Step α) → Option (List α)
  | 0 => pass link t final fun _ _ => none
  | links + 1 => pass link t final (follow final links)

/-- No link stands on the way of a path, or at its end. -/
def Unlinked (path : List α) : Prop :=
  ∀ p content, p <+: path → t.node p = some (.leaf content) →
    link content = none

section

variable {link : β → Option (Target α)} {t : FileTree α β} {final : Bool}
  {onLink : List α → List (Step α) → Option (List α)}

theorem Unlinked.left {path rest : List α}
    (h : t.Unlinked link (path ++ rest)) : t.Unlinked link path :=
  fun p content hp => h p content (hp.trans (List.prefix_append _ _))

/-- A node that is not a link has none on its way. -/
theorem unlinked_of_node {path : List α} {n : Node β}
    (h : t.node path = some n)
    (hn : ∀ content, n = .leaf content → link content = none) :
    t.Unlinked link path := by
  rintro p content ⟨rest, rfl⟩ hleaf
  by_cases hrest : rest = []
  · rw [hrest, List.append_nil, hleaf] at h
    injection h with h
    exact hn content h.symm
  · rw [node_ancestor h hrest] at hleaf
    cases hleaf

/-- One step further. -/
theorem Unlinked.concat {path : List α} {name : α}
    (h : t.Unlinked link path)
    (hname : ∀ content, t.node (path ++ [name]) = some (.leaf content) →
      link content = none) : t.Unlinked link (path ++ [name]) := by
  intro p content hp hleaf
  rcases List.prefix_concat_iff.mp hp with rfl | hp
  · exact hname content hleaf
  · exact h p content hp hleaf

/-- Steps through directories arrive. -/
theorem pass_dirs {dir names : List α} {rest : List (Step α)}
    (h : t.node (dir ++ names) = some .dir) :
    t.pass link final onLink dir (names.map .into ++ rest)
      = t.pass link final onLink (dir ++ names) rest := by
  induction names generalizing dir with
  | nil =>
      rw [List.append_nil]
      rfl
  | cons name names ih =>
      rw [List.append_cons] at h ⊢
      have hdir : t.node (dir ++ [name]) = some .dir := by
        by_cases hnil : names = []
        · rwa [hnil, List.append_nil] at h
        · exact node_ancestor h hnil
      rw [List.map_cons, List.cons_append, pass, hdir]
      exact ih h

/-- The path of a node leads to it, unless a link at its end is followed. -/
theorem follow_of_node {path : List α} {n : Node β} {links : Nat}
    (h : t.node path = some n)
    (hn : ∀ content, final = true → n = .leaf content → link content = none) :
    t.follow link final links [] (path.map .into) = some path := by
  have hpass : ∀ onLink,
      t.pass link final onLink [] (path.map .into) = some path := by
    intro onLink
    induction path using List.reverseRecOn with
    | nil => rfl
    | append_singleton dir name _ =>
        rw [List.map_append, pass_dirs (node_parent h), List.nil_append,
          List.map_singleton, pass, h]
        cases n with
        | dir => rfl
        | leaf content =>
            cases hlink : link content with
            | none =>
                simp only [hlink]
                rfl
            | some target =>
                cases final with
                | false =>
                    simp only [hlink]
                    rfl
                | true =>
                    rw [hn content rfl rfl] at hlink
                    cases hlink
  cases links with
  | zero => exact hpass _
  | succ links => exact hpass _

/-- Where no link can be met, a lookup ends where the path says. -/
theorem pass_unlinked {dir names p : List α}
    (hway : ∀ pre content, pre <+: names → (final = true ∨ pre ≠ names) →
      t.node (dir ++ pre) = some (.leaf content) → link content = none)
    (h : t.pass link final onLink dir (names.map .into) = some p) :
    p = dir ++ names := by
  induction names generalizing dir with
  | nil =>
      injection h with h
      rw [← h, List.append_nil]
  | cons name names ih =>
      have hone : [name] <+: name :: names := List.prefix_append [name] names
      rw [List.map_cons, pass] at h
      split at h
      · cases h
      · rw [List.append_cons]
        refine ih ?_ h
        intro pre content hpre hproper hleaf
        refine hway (name :: pre) content
          (List.cons_prefix_cons.mpr ⟨rfl, hpre⟩) ?_ ?_
        · exact hproper.imp_right fun hne hsame => hne (List.cons.inj hsame).2
        · rwa [List.append_cons]
      · next content hleaf =>
          split at h
          · split at h
            · next hlast =>
                injection h with h
                rw [← h, List.map_eq_nil_iff.mp (List.isEmpty_iff.mp hlast)]
            · cases h
          · next target htarget =>
              split at h
              · next hlast =>
                  rw [Bool.and_eq_true] at hlast
                  injection h with h
                  rw [← h,
                    List.map_eq_nil_iff.mp (List.isEmpty_iff.mp hlast.1)]
              · next hmore =>
                  have hnone := hway [name] content hone ?_ hleaf
                  · rw [hnone] at htarget
                    cases htarget
                  · rw [Bool.and_eq_true, not_and_or] at hmore
                    rcases hmore with hrest | hfinal
                    · refine .inr fun hsame => hrest ?_
                      rw [← (List.cons.inj hsame).2]
                      rfl
                    · exact .inl (by simpa using hfinal)

/-- A lookup that meets no link, but for one at its end that is not followed,
ends where the path says. -/
theorem follow_eq {links : Nat} {path p : List α}
    (hway : ∀ pre content, pre <+: path → (final = true ∨ pre ≠ path) →
      t.node pre = some (.leaf content) → link content = none)
    (h : t.follow link final links [] (path.map .into) = some p) :
    p = path := by
  cases links with
  | zero => exact pass_unlinked hway h
  | succ links => exact pass_unlinked hway h

theorem follow_unlinked {links : Nat} {path p : List α}
    (hway : t.Unlinked link path)
    (h : t.follow link final links [] (path.map .into) = some p) :
    p = path :=
  follow_eq (fun pre content hpre _ => hway pre content hpre) h

theorem follow_concat {links : Nat} {path p : List α} {name : α}
    (hway : t.Unlinked link path)
    (h : t.follow link false links [] ((path ++ [name]).map .into) = some p) :
    p = path ++ [name] := by
  refine follow_eq ?_ h
  intro pre content hpre hproper hleaf
  rcases List.prefix_concat_iff.mp hpre with hsame | hpre
  · rcases hproper with hfalse | hne
    · cases hfalse
    · exact absurd hsame hne
  · exact hway pre content hpre hleaf

end

/-! ## Changing a tree -/

/-- A root directory with nothing in it. -/
def bare : FileTree α β where
  nodes := AList.singleton [] .dir
  closed := by
    intro path name n h
    have hkey := congrArg Sigma.fst (List.mem_singleton.mp h)
    exact absurd hkey (List.append_ne_nil_of_right_ne_nil _ (by simp))

/-- The tree with one node more. -/
def add (t : FileTree α β) (path : List α) (name : α) (n : Node β)
    (hdir : t.node path = some .dir) (hnew : t.node (path ++ [name]) = none) :
    FileTree α β where
  nodes := t.nodes.insert (path ++ [name]) n
  closed := by
    intro path' name' n' h
    rw [← AList.mem_lookup_iff] at h ⊢
    by_cases hsame : path' ++ [name'] = path ++ [name]
    · obtain ⟨rfl, -⟩ := List.append_inj' hsame rfl
      rw [AList.lookup_insert_ne]
      · exact hdir
      · intro hself
        have := congrArg List.length hself
        simp at this
    · rw [AList.lookup_insert_ne hsame] at h
      have hparent : t.node path' = some .dir := node_parent h
      rw [AList.lookup_insert_ne]
      · exact hparent
      · intro hself
        rw [hself, hnew] at hparent
        cases hparent

theorem node_add {t : FileTree α β} {path : List α} {name : α} {n : Node β}
    {hdir : t.node path = some .dir} {hnew : t.node (path ++ [name]) = none}
    (path' : List α) :
    (t.add path name n hdir hnew).node path'
      = if path' = path ++ [name] then some n else t.node path' := by
  split
  · next h =>
      rw [h]
      exact AList.lookup_insert t.nodes
  · next h => exact AList.lookup_insert_ne h

/-- The tree with another leaf where there is one. -/
def replace (t : FileTree α β) (path : List α) (old new : β)
    (hleaf : t.node path = some (.leaf old)) : FileTree α β where
  nodes := t.nodes.insert path (.leaf new)
  closed := by
    intro path' name' n' h
    rw [← AList.mem_lookup_iff] at h ⊢
    have hparent : t.node path' = some .dir := by
      by_cases hsame : path' ++ [name'] = path
      · rw [← hsame] at hleaf
        exact node_parent hleaf
      · rw [AList.lookup_insert_ne hsame] at h
        exact node_parent h
    rw [AList.lookup_insert_ne]
    · exact hparent
    · intro hself
      rw [hself, hleaf] at hparent
      cases hparent

theorem node_replace {t : FileTree α β} {path : List α} {old new : β}
    {hleaf : t.node path = some (.leaf old)} (path' : List α) :
    (t.replace path old new hleaf).node path'
      = if path' = path then some (.leaf new) else t.node path' := by
  split
  · next h =>
      rw [h]
      exact AList.lookup_insert t.nodes
  · next h => exact AList.lookup_insert_ne h

/-! ## What is under a path -/

/-- The rest of a path that starts with another. -/
def relativeTo : List α → List α → Option (List α)
  | [], path => some path
  | _ :: _, [] => none
  | a :: base, b :: path => if a = b then relativeTo base path else none

theorem relativeTo_eq_some {base path rest : List α} :
    relativeTo base path = some rest ↔ path = base ++ rest := by
  induction base generalizing path with
  | nil =>
      rw [relativeTo, List.nil_append]
      exact Option.some_inj
  | cons a base ih =>
      cases path with
      | nil => simp [relativeTo]
      | cons b path =>
          rw [relativeTo, List.cons_append, List.cons.injEq]
          split
          · next h =>
              rw [ih, h]
              exact (and_iff_right rfl).symm
          · next h =>
              refine ⟨?_, ?_⟩
              · intro hnone
                cases hnone
              · intro hboth
                exact absurd hboth.1.symm h

/-- Everything under a path, not the path itself. -/
def below (t : FileTree α β) (base : List α) : List (List α × Node β) :=
  t.nodes.entries.filterMap fun entry =>
    match relativeTo base entry.1 with
    | some (name :: rest) => some (name :: rest, entry.2)
    | _ => none

theorem mem_below {t : FileTree α β} {base rest : List α} {n : Node β} :
    (rest, n) ∈ t.below base ↔
      rest ≠ [] ∧ t.node (base ++ rest) = some n := by
  rw [below, List.mem_filterMap]
  refine ⟨?_, ?_⟩
  · intro h
    obtain ⟨⟨path, n'⟩, hmem, hrest⟩ := h
    simp only [] at hrest
    split at hrest
    · next name tail hpath =>
        injection hrest with hrest
        injection hrest with hrest hn
        rw [← hrest, ← hn]
        refine ⟨List.cons_ne_nil _ _, node_eq_some.mpr ?_⟩
        rw [← relativeTo_eq_some.mp hpath]
        exact hmem
    · cases hrest
  · intro h
    obtain ⟨hne, hnode⟩ := h
    refine ⟨⟨base ++ rest, n⟩, node_eq_some.mp hnode, ?_⟩
    cases rest with
    | nil => exact absurd rfl hne
    | cons name tail =>
        simp only [relativeTo_eq_some.mpr (rfl : base ++ name :: tail = _)]

end FileTree

end SapioTee.Lib
