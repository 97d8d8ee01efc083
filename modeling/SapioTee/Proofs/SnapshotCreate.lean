import SapioTee.Lib.JsonRoundtrip
import SapioTee.Proofs.Snapshot

/-!
# What `create` writes, `verify` accepts

The loop over the entries writes one file a turn, with the directories it
needs. Its invariant says what is under the snapshot directory after some
entries: their files, with the bytes found in the source, the directories
above them, and nothing else. Nothing outside the snapshot directory is
changed, so every turn still reads the source as it was at the start; that
the two do not overlap is what the check of the destination and the fresh
directory are for.

The manifest is written last. It is read back as a JSON value with its
members in another order, which writes down the same inventory.
-/

namespace SapioTee.Snapshot

open Lib

/-! ## The operations -/

section

variable {t t' : Tree} {path : AbsPath}

theorem Unlinked.dropLast (h : Unlinked t path) : Unlinked t path.dropLast :=
  fun p content hp => h p content (hp.trans (List.dropLast_prefix path))

/-- New directories put no link on the way. -/
theorem Unlinked.of_node (h : Unlinked t path)
    (hnode : ∀ p, p <+: path →
      t'.node p = t.node p ∨ t'.node p = some .dir) : Unlinked t' path := by
  intro p content hp hleaf
  rcases hnode p hp with hsame | hdir
  · exact h p content hp (hsame ▸ hleaf)
  · rw [hdir] at hleaf
    cases hleaf

theorem create_ok {node : Node Leaf} {place : AbsPath}
    (hway : Unlinked t path.dropLast)
    (h : create t path node = .ok (place, t')) :
    place = path ∧ path ≠ [] ∧ t.node path.dropLast = some .dir ∧
      t.node path = none ∧
      ∀ p, t'.node p = if p = path then some node else t.node p := by
  rw [create] at h
  split at h
  · cases h
  · next hne =>
      have hpath : path.dropLast ++ [path.getLast hne] = path :=
        List.dropLast_append_getLast hne
      obtain ⟨parent, hparent, h⟩ := bind_ok h
      have hsame := locate_ok hway hparent
      subst hsame
      split at h
      · next hfree =>
          injection h with h
          injection h with hplace htree
          refine ⟨hplace.symm.trans hpath, hne, hfree.1, ?_, ?_⟩
          · rw [← hpath]
            exact hfree.2
          · intro p
            rw [← htree, FileTree.node_add, hpath]
      · cases h

theorem mkdir_ok (hway : Unlinked t path.dropLast)
    (h : mkdir t path = .ok t') :
    path ≠ [] ∧ t.node path.dropLast = some .dir ∧ t.node path = none ∧
      ∀ p, t'.node p = if p = path then some .dir else t.node p := by
  rw [mkdir] at h
  obtain ⟨⟨place, made⟩, hmade, h⟩ := bind_ok h
  injection h with h
  rw [← h]
  exact (create_ok hway hmade).2

theorem chmod_file {data : Bytes} {old executable : Bool}
    (hnode : t.node path = some (.leaf (.file data old)))
    (h : chmod t path executable = .ok t') (p : AbsPath) :
    t'.node p
      = if p = path then some (.leaf (.file data executable))
        else t.node p := by
  rw [chmod, locate_of hnode (by simp), ok_bind] at h
  split at h
  · next data' old' hfile =>
      injection h with h
      rw [hnode] at hfile
      injection hfile with hfile
      injection hfile with hfile
      injection hfile with hdata hold
      rw [← h, FileTree.node_replace, ← hdata]
  · next hdir =>
      rw [hnode] at hdir
      cases hdir
  · next hnot _ =>
      exact absurd hnode (hnot data old)

theorem stat_ok {final : Bool} {node : Node Leaf} (hway : Unlinked t path)
    (h : stat t final path = .ok node) : t.node path = some node := by
  rw [stat] at h
  obtain ⟨place, hplace, h⟩ := bind_ok h
  rw [locate_ok hway hplace] at h
  split at h
  · next hnode =>
      injection h with h
      rw [hnode, h]
  · cases h

end

/-- The directories a chain of `mkdir`s passes. -/
def OnWay (above : AbsPath) (parts : List Name) (p : AbsPath) : Prop :=
  p <+: above ++ parts ∧ above.length < p.length

theorem onWay_nil {above p : AbsPath} : ¬OnWay above [] p := by
  intro h
  obtain ⟨hlead, hlen⟩ := h
  rw [List.append_nil] at hlead
  have := hlead.length_le
  omega

theorem onWay_cons {above p : AbsPath} {name : Name} {rest : List Name} :
    OnWay above (name :: rest) p ↔
      p = above ++ [name] ∨ OnWay (above ++ [name]) rest p := by
  have hsplit : above ++ name :: rest = above ++ [name] ++ rest := by
    rw [List.append_assoc]
    rfl
  rw [OnWay, OnWay, hsplit, List.length_append, List.length_singleton]
  refine ⟨?_, ?_⟩
  · intro h
    obtain ⟨hlead, hlen⟩ := h
    rcases Nat.lt_or_ge (above.length + 1) p.length with hlt | hge
    · exact .inr ⟨hlead, hlt⟩
    · refine .inl ?_
      have hself : above ++ [name] <+: above ++ [name] ++ rest :=
        List.prefix_append _ _
      have hlength : p.length = (above ++ [name]).length := by
        rw [List.length_append, List.length_singleton]
        omega
      exact (List.prefix_of_prefix_length_le hlead hself
        (Nat.le_of_eq hlength)).eq_of_length hlength
  · intro h
    rcases h with rfl | ⟨hlead, hlen⟩
    · refine ⟨List.prefix_append _ _, ?_⟩
      rw [List.length_append, List.length_singleton]
      omega
    · exact ⟨hlead, by omega⟩

theorem mkdirParents_ok {t t' : Tree} {above : AbsPath} {parts : List Name}
    (hway : Unlinked t (above ++ parts))
    (h : mkdirParents t above parts = .ok t') :
    (∀ p, OnWay above parts p → t'.node p = some .dir ∧
      (t.node p = none ∨ t.node p = some .dir)) ∧
      ∀ p, ¬OnWay above parts p → t'.node p = t.node p := by
  induction parts generalizing t above with
  | nil =>
      injection h with h
      rw [h]
      exact ⟨fun p hp => absurd hp onWay_nil, fun p _ => rfl⟩
  | cons name rest ih =>
      have hself : ¬OnWay (above ++ [name]) rest (above ++ [name]) :=
        fun hway => Nat.lt_irrefl _ hway.2
      rw [List.append_cons] at hway
      rw [mkdirParents] at h
      split at h
      · next hstat =>
          have hdir := stat_ok hway.left hstat
          obtain ⟨hon, hoff⟩ := ih hway h
          refine ⟨?_, ?_⟩
          · intro p hp
            rcases onWay_cons.mp hp with rfl | hp
            · exact ⟨(hoff _ hself).trans hdir, .inr hdir⟩
            · exact hon p hp
          · intro p hp
            exact hoff p fun hway => hp (onWay_cons.mpr (.inr hway))
      · cases h
      · obtain ⟨made, hmade, h⟩ := bind_ok h
        have habove : Unlinked t (above ++ [name]).dropLast := by
          rw [List.dropLast_concat]
          exact hway.left.left
        obtain ⟨_, _, hnone, hnode⟩ := mkdir_ok habove hmade
        have hmore : Unlinked made (above ++ [name] ++ rest) := by
          refine hway.of_node fun p _ => ?_
          rw [hnode]
          split
          · exact .inr rfl
          · exact .inl rfl
        obtain ⟨hon, hoff⟩ := ih hmore h
        refine ⟨?_, ?_⟩
        · intro p hp
          rcases onWay_cons.mp hp with rfl | hp
          · exact ⟨by rw [hoff _ hself, hnode, if_pos rfl], .inl hnone⟩
          · obtain ⟨hdir, hbefore⟩ := hon p hp
            have hne : p ≠ above ++ [name] := by
              intro hsame
              rw [hsame] at hp
              exact hself hp
            rw [hnode, if_neg hne] at hbefore
            exact ⟨hdir, hbefore⟩
        · intro p hp
          rw [hoff p fun hway => hp (onWay_cons.mpr (.inr hway)), hnode,
            if_neg fun hsame => hp (onWay_cons.mpr (.inl hsame))]

/-! ## One entry -/

section

variable (P : Python) {name : String} {root snapshot : AbsPath}

/-- The directories a file is put under. -/
def Above (target p : AbsPath) : Prop := OnWay [] target.dropLast p

theorem Above.ne {target p : AbsPath} (h : Above target p) : p ≠ target := by
  intro hsame
  obtain ⟨hlead, hlen⟩ := h
  have hle := hlead.length_le
  rw [List.nil_append, List.length_dropLast, hsame] at hle
  rw [hsame, List.length_nil] at hlen
  omega

theorem above_iff {target p : AbsPath} (htarget : target ≠ []) :
    Above target p ↔ p ≠ [] ∧ p <+: target ∧ p ≠ target := by
  have hsplit : target.dropLast ++ [target.getLast htarget] = target :=
    List.dropLast_append_getLast htarget
  refine ⟨?_, ?_⟩
  · intro h
    refine ⟨?_, ?_, h.ne⟩
    · intro hnil
      have hlen := h.2
      rw [hnil] at hlen
      exact Nat.lt_irrefl _ hlen
    · rw [← hsplit]
      exact h.1.trans (List.prefix_append _ _)
  · intro h
    obtain ⟨hne, hlead, hproper⟩ := h
    have hlen : p.length ≤ target.dropLast.length := by
      rcases Nat.lt_or_ge p.length target.length with hlt | hge
      · rw [List.length_dropLast]
        omega
      · exact absurd (hlead.eq_of_length_le hge) hproper
    refine ⟨List.prefix_of_prefix_length_le hlead ?_ hlen, ?_⟩
    · rw [List.nil_append]
      exact List.dropLast_prefix target
    · exact List.length_pos_iff.mpr hne

/-- What one turn of the loop does to the tree. -/
structure Wrote (t t' : Tree) (target : AbsPath) (data : Bytes)
    (executable : Bool) : Prop where
  fresh : t.node target = none
  file : t'.node target = some (.leaf (.file data executable))
  above : ∀ p, Above target p → t'.node p = some .dir ∧
    (t.node p = none ∨ t.node p = some .dir)
  others : ∀ p, p ≠ target → ¬Above target p → t'.node p = t.node p

theorem wrote_of {t made written t' : Tree} {target place : AbsPath}
    {data : Bytes} {executable : Bool} (hway : Unlinked t target.dropLast)
    (hmade : mkdirParents t [] target.dropLast = .ok made)
    (hwritten : writeNew made target data = .ok (place, written))
    (hmode : chmod written target executable = .ok t') :
    Wrote t t' target data executable ∧ place = target := by
  obtain ⟨hon, hoff⟩ := mkdirParents_ok hway hmade
  have hmadeWay : Unlinked made target.dropLast := by
    refine hway.of_node fun p hp => ?_
    by_cases hnil : p = []
    · exact .inl (hoff p fun hon => by simp [hnil, OnWay] at hon)
    · exact .inr (hon p ⟨hp, List.length_pos_iff.mpr hnil⟩).1
  obtain ⟨hplace, _, _, hnone, hnode⟩ := create_ok hmadeWay hwritten
  have hfile : written.node target = some (.leaf (.file data false)) := by
    rw [hnode, if_pos rfl]
  have hnode' := chmod_file hfile hmode
  refine ⟨⟨?_, ?_, ?_, ?_⟩, hplace⟩
  · rw [← hoff target fun hway => Above.ne hway rfl]
    exact hnone
  · rw [hnode', if_pos rfl]
  · intro p hp
    rw [hnode', if_neg hp.ne, hnode, if_neg hp.ne]
    exact hon p hp
  · intro p hne hp
    rw [hnode', if_neg hne, hnode, if_neg hne]
    exact hoff p hp

theorem copyEntry_ok {w w' : World} {f : Listed} (hpath : Canonical f.path)
    (hroot : Unlinked w.tree root)
    (hway : Unlinked w.tree (snapshot ++ f.path))
    (h : copyEntry P name root snapshot w f.entry = .ok w') :
    ∃ data, w.tree.node (root ++ f.path)
        = some (.leaf (.file data f.executable)) ∧
      digest P data = f.sha256 ∧
      Wrote w.tree w'.tree (snapshot ++ f.path) data f.executable ∧
      w'.trace = w.trace ++
        [.read (root ++ f.path), .wrote (snapshot ++ f.path)] := by
  rw [copyEntry] at h
  obtain ⟨opened, hopened, h⟩ := bind_ok h
  obtain ⟨_, hreviewed, h⟩ := bind_ok h
  obtain ⟨made, hmade, h⟩ := bind_ok h
  obtain ⟨⟨place, written⟩, hwritten, h⟩ := bind_ok h
  obtain ⟨tree, hmode, h⟩ := bind_ok h
  injection h with h
  obtain ⟨names, hnames, _, hjoin, hread, hnode⟩ :=
    fileContent_ok P hroot hopened
  have hsame : f.path = names := join_inj hpath.1 hnames.1 hjoin
  have htail : (purePosixPath f.entry.1).tail = f.path := tail_join hpath.1
  have hreviewed := require_ok hreviewed
  rw [Bool.and_eq_true] at hreviewed
  have hexec : opened.executable = f.executable := eq_of_beq hreviewed.2
  rw [htail] at hmade hwritten hmode
  rw [← hsame, hexec] at hnode
  rw [← hsame] at hread
  rw [hexec] at hmode
  obtain ⟨hwrote, hplace⟩ := wrote_of hway.dropLast hmade hwritten hmode
  refine ⟨opened.data, hnode, eq_of_beq hreviewed.1, ?_, ?_⟩
  · rw [← h]
    exact hwrote
  · rw [← h, hread, hplace]

/-! ## The loop -/

/-- The accesses of the turns for these files. -/
def accesses (root snapshot : AbsPath) (files : List Listed) : List Access :=
  files.flatMap fun f => [.read (root ++ f.path), .wrote (snapshot ++ f.path)]

/-- The state of the loop after these files, from the tree and the trace it
started with. -/
structure Copied (start : World) (root snapshot : AbsPath)
    (done : List Listed) (w : World) : Prop where
  outside : ∀ p, ¬snapshot <+: p → w.tree.node p = start.tree.node p
  base : w.tree.node snapshot = some .dir
  files : ∀ f ∈ done, ∃ data,
    w.tree.node (snapshot ++ f.path)
        = some (.leaf (.file data f.executable)) ∧
      start.tree.node (root ++ f.path)
        = some (.leaf (.file data f.executable)) ∧
      digest P data = f.sha256
  only : ∀ path node, w.tree.node (snapshot ++ path) = some node →
    (∃ f ∈ done, path = f.path) ∨
      node = .dir ∧
        (path = [] ∨ ∃ f ∈ done, path <+: f.path ∧ path ≠ f.path)
  trace : w.trace = start.trace ++ accesses root snapshot done

variable {P} {start w w' : World} {done : List Listed} {f : Listed}

section

variable {t t' : Tree} {path : List Name} {data : Bytes} {executable : Bool}

theorem target_ne_nil (hpath : path ≠ []) : snapshot ++ path ≠ [] :=
  fun hnil => hpath (List.append_eq_nil_iff.mp hnil).2

/-- Above the snapshot directory everything was a directory already. -/
theorem Wrote.outside
    (h : Wrote t t' (snapshot ++ path) data executable) (hpath : path ≠ [])
    (hbase : t.node snapshot = some .dir) {p : AbsPath}
    (hp : ¬snapshot <+: p) : t'.node p = t.node p := by
  by_cases habove : Above (snapshot ++ path) p
  · obtain ⟨_, hlead, _⟩ := (above_iff (target_ne_nil hpath)).mp habove
    have hself : snapshot <+: snapshot ++ path := List.prefix_append _ _
    have hshort : p <+: snapshot := by
      rcases Nat.le_total p.length snapshot.length with hle | hge
      · exact List.prefix_of_prefix_length_le hlead hself hle
      · exact absurd (List.prefix_of_prefix_length_le hself hlead hge) hp
    obtain ⟨rest, rfl⟩ := hshort
    have hrest : rest ≠ [] := by
      intro hnil
      rw [hnil, List.append_nil] at hp
      exact hp (List.prefix_refl p)
    rw [(h.above p habove).1, FileTree.node_ancestor hbase hrest]
  · refine h.others p ?_ habove
    intro hsame
    rw [hsame] at hp
    exact hp (List.prefix_append _ _)

theorem Wrote.base
    (h : Wrote t t' (snapshot ++ path) data executable) (hpath : path ≠ []) :
    t'.node snapshot = some .dir :=
  FileTree.node_ancestor h.file hpath

/-- A leaf stays. -/
theorem Wrote.leaf {target p : AbsPath} {leaf : Leaf}
    (h : Wrote t t' target data executable)
    (hleaf : t.node p = some (.leaf leaf)) : t'.node p = some (.leaf leaf) := by
  rw [← hleaf]
  refine h.others p ?_ ?_
  · intro hsame
    rw [hsame, h.fresh] at hleaf
    cases hleaf
  · intro habove
    rcases (h.above p habove).2 with hbefore | hbefore
    · rw [hleaf] at hbefore
      cases hbefore
    · rw [hleaf] at hbefore
      cases hbefore

/-- What is under the snapshot directory afterwards. -/
theorem Wrote.inside
    (h : Wrote t t' (snapshot ++ path) data executable) {p : List Name}
    {node : Node Leaf} (hnode : t'.node (snapshot ++ p) = some node) :
    p = path ∨ node = .dir ∧ p <+: path ∧ p ≠ path ∨
      t.node (snapshot ++ p) = some node := by
  by_cases hsame : p = path
  · exact .inl hsame
  · refine .inr ?_
    have hne : snapshot ++ p ≠ snapshot ++ path :=
      fun heq => hsame (List.append_cancel_left heq)
    by_cases habove : Above (snapshot ++ path) (snapshot ++ p)
    · have hdir := (h.above _ habove).1
      rw [hnode] at hdir
      injection hdir with hdir
      have hlead : snapshot ++ p <+: snapshot ++ path := by
        refine habove.1.trans ?_
        rw [List.nil_append]
        exact List.dropLast_prefix _
      exact .inl ⟨hdir, (List.prefix_append_right_inj snapshot).mp hlead,
        hsame⟩
    · rw [h.others _ hne habove] at hnode
      exact .inr hnode

end

/-- What was copied is not a link, and is under real directories. -/
theorem Copied.unlinked (h : Copied P start root snapshot done w)
    (path : List Name) : Unlinked w.tree (snapshot ++ path) := by
  intro p content hp hleaf
  have hself : snapshot <+: snapshot ++ path := List.prefix_append _ _
  have hinside : snapshot <+: p := by
    rcases Nat.le_total p.length snapshot.length with hle | hge
    · obtain ⟨rest, hrest⟩ := List.prefix_of_prefix_length_le hp hself hle
      by_cases hnil : rest = []
      · rw [hnil, List.append_nil] at hrest
        rw [hrest]
      · have hbase := h.base
        rw [← hrest] at hbase
        rw [FileTree.node_ancestor hbase hnil] at hleaf
        cases hleaf
    · exact List.prefix_of_prefix_length_le hself hp hge
  obtain ⟨q, rfl⟩ := hinside
  rcases h.only q _ hleaf with ⟨f, hf, rfl⟩ | ⟨hdir, _⟩
  · obtain ⟨data, hfile, _⟩ := h.files f hf
    rw [hfile] at hleaf
    injection hleaf with hleaf
    injection hleaf with hleaf
    rw [← hleaf]
    rfl
  · cases hdir

/-- The way to the source is what it was at the start. -/
theorem Copied.source_unlinked (h : Copied P start root snapshot done w)
    (hapart : ∀ p, ¬snapshot <+: root ++ p)
    (hroot : Unlinked start.tree root) : Unlinked w.tree root := by
  refine hroot.of_node fun p hp => .inl (h.outside p fun hsnapshot => ?_)
  have hself := hsnapshot.trans hp
  rw [← List.append_nil root] at hself
  exact hapart [] hself

/-- One more file. -/
theorem Copied.step (h : Copied P start root snapshot done w)
    (hapart : ∀ p, ¬snapshot <+: root ++ p)
    (hroot : Unlinked start.tree root) (hpath : Canonical f.path)
    (hcopy : copyEntry P name root snapshot w f.entry = .ok w') :
    Copied P start root snapshot (done ++ [f]) w' := by
  obtain ⟨data, hsource, hdigest, hwrote, htrace⟩ :=
    copyEntry_ok P hpath (h.source_unlinked hapart hroot)
      (h.unlinked f.path) hcopy
  have hmore : ∀ {Q : Listed → Prop}, (∃ g ∈ done, Q g) →
      ∃ g ∈ done ++ [f], Q g := by
    intro Q hex
    obtain ⟨g, hg, hq⟩ := hex
    exact ⟨g, List.mem_append_left _ hg, hq⟩
  have hlast : f ∈ done ++ [f] :=
    List.mem_append_right _ (List.mem_singleton_self f)
  refine ⟨?_, hwrote.base hpath.1, ?_, ?_, ?_⟩
  · intro p hp
    rw [hwrote.outside hpath.1 h.base hp]
    exact h.outside p hp
  · intro g hg
    rcases List.mem_append.mp hg with hg | hg
    · obtain ⟨gdata, hnode, hrest⟩ := h.files g hg
      exact ⟨gdata, hwrote.leaf hnode, hrest⟩
    · rw [List.mem_singleton.mp hg]
      refine ⟨data, hwrote.file, ?_, hdigest⟩
      rw [← h.outside _ (hapart f.path)]
      exact hsource
  · intro path node hnode
    rcases hwrote.inside hnode with hsame | ⟨hdir, hproper⟩ | hold
    · exact .inl ⟨f, hlast, hsame⟩
    · exact .inr ⟨hdir, .inr ⟨f, hlast, hproper⟩⟩
    · rcases h.only path node hold with hold | ⟨hdir, hold⟩
      · exact .inl (hmore hold)
      · rcases hold with hold | hold
        · exact .inr ⟨hdir, .inl hold⟩
        · exact .inr ⟨hdir, .inr (hmore hold)⟩
  · rw [htrace, h.trace, accesses, accesses, List.flatMap_append,
      List.append_assoc]
    rfl

/-- All of them. -/
theorem Copied.run (files : List Listed)
    (h : Copied P start root snapshot done w)
    (hapart : ∀ p, ¬snapshot <+: root ++ p)
    (hroot : Unlinked start.tree root)
    (hpaths : ∀ f ∈ files, Canonical f.path)
    (hcopy : (files.map Listed.entry).foldlM
      (copyEntry P name root snapshot) w = .ok w') :
    Copied P start root snapshot (done ++ files) w' := by
  induction files generalizing done w with
  | nil =>
      injection hcopy with hcopy
      rw [List.append_nil, ← hcopy]
      exact h
  | cons f files ih =>
      rw [List.map_cons, List.foldlM_cons] at hcopy
      obtain ⟨next, hnext, hcopy⟩ := bind_ok hcopy
      have hstep := h.step hapart hroot (hpaths f List.mem_cons_self) hnext
      have hrun := ih hstep
        (fun g hg => hpaths g (List.mem_cons_of_mem _ hg)) hcopy
      rw [List.append_assoc] at hrun
      exact hrun

/-! ## The manifest -/

/-- Nothing is in a directory that was just made. -/
theorem mkdir_empty {t t' : Tree} {path rest : AbsPath}
    (hway : Unlinked t path.dropLast) (h : mkdir t path = .ok t')
    (hrest : rest ≠ []) : t'.node (path ++ rest) = none := by
  obtain ⟨_, _, hnone, hnode⟩ := mkdir_ok hway h
  have hne : path ++ rest ≠ path := by
    intro hsame
    exact hrest (List.self_eq_append_right.mp hsame.symm)
  rw [hnode, if_neg hne]
  cases hold : t.node (path ++ rest) with
  | none => rfl
  | some node =>
      have hdir := FileTree.node_ancestor hold hrest
      rw [hnone] at hdir
      cases hdir

theorem copied_nil {t : Tree} (hway : Unlinked t snapshot.dropLast)
    (h : mkdir t snapshot = .ok start.tree) :
    Copied P start root snapshot [] start := by
  obtain ⟨_, _, _, hnode⟩ := mkdir_ok hway h
  refine ⟨fun p _ => rfl, ?_, ?_, ?_, ?_⟩
  · rw [hnode, if_pos rfl]
  · intro f hf
    cases hf
  · intro path node hpath
    by_cases hnil : path = []
    · rw [hnil, List.append_nil, hnode, if_pos rfl] at hpath
      injection hpath with hpath
      exact .inr ⟨hpath.symm, .inl hnil⟩
    · rw [mkdir_empty hway h hnil] at hpath
      cases hpath
  · rw [accesses, List.flatMap_nil, List.append_nil]

/-- What writing the manifest and setting its mode leave. -/
theorem manifest_ok {path : AbsPath} {value : Json} {written : World}
    {t' : Tree} (hway : Unlinked w.tree path.dropLast)
    (hwrite : writeJson P w path value = .ok written)
    (hmode : chmod written.tree path false = .ok t') :
    w.tree.node path = none ∧ written.trace = w.trace ++ [.wrote path] ∧
      ∀ p, t'.node p
        = if p = path then some (.leaf (.file (dumps P value) false))
          else w.tree.node p := by
  rw [writeJson] at hwrite
  obtain ⟨⟨place, made⟩, hmade, hwrite⟩ := bind_ok hwrite
  obtain ⟨locked, hlocked, hwrite⟩ := bind_ok hwrite
  injection hwrite with hwrite
  obtain ⟨hplace, _, _, hnone, hnode⟩ := create_ok hway hmade
  have hfile : made.node path
      = some (.leaf (.file (dumps P value) false)) := by
    rw [hnode, if_pos rfl]
  have hnode' := chmod_file hfile hlocked
  have hfile' : written.tree.node path
      = some (.leaf (.file (dumps P value) false)) := by
    rw [← hwrite, hnode', if_pos rfl]
  refine ⟨hnone, ?_, ?_⟩
  · rw [← hwrite, hplace]
  · intro p
    rw [chmod_file hfile' hmode, ← hwrite, hnode', hnode]
    split <;> rfl

/-- The tree with the manifest in it is the inventory. -/
theorem Copied.matches {inventory : Inventory} {t' : Tree} {text : Bytes}
    (h : Copied P start root snapshot inventory.files w)
    (hfree : inventory.Unreserved)
    (hnode : ∀ p, t'.node p = if p = snapshot ++ [manifestName]
      then some (.leaf (.file text false)) else w.tree.node p) :
    inventory.Matches P t' snapshot := by
  have hother : ∀ path, path ≠ [manifestName] →
      t'.node (snapshot ++ path) = w.tree.node (snapshot ++ path) := by
    intro path hpath
    rw [hnode, if_neg fun hsame => hpath (List.append_cancel_left hsame)]
  have hmanifest : t'.node (snapshot ++ [manifestName])
      = some (.leaf (.file text false)) := by
    rw [hnode, if_pos rfl]
  have hlisted : ∀ f ∈ inventory.files,
      t'.node (snapshot ++ f.path) = w.tree.node (snapshot ++ f.path) :=
    fun f hf => hother f.path (hfree f hf)
  refine ⟨?_, ?_, ?_, ?_⟩
  · intro path
    refine ⟨?_, ?_⟩
    · intro hboth
      obtain ⟨⟨data, executable, hfile⟩, hpath⟩ := hboth
      rw [hother path hpath] at hfile
      rcases h.only path _ hfile with ⟨f, hf, rfl⟩ | ⟨hdir, _⟩
      · exact List.mem_map_of_mem hf
      · cases hdir
    · intro hmem
      obtain ⟨f, hf, rfl⟩ := List.mem_map.mp hmem
      obtain ⟨data, hfile, _⟩ := h.files f hf
      exact ⟨⟨data, f.executable, (hlisted f hf).trans hfile⟩, hfree f hf⟩
  · intro f hf
    obtain ⟨data, hfile, _, hdigest⟩ := h.files f hf
    exact ⟨data, (hlisted f hf).trans hfile, hdigest⟩
  · intro path hne hdir
    have hpath : path ≠ [manifestName] := by
      intro hsame
      rw [hsame, hmanifest] at hdir
      cases hdir
    rw [hother path hpath] at hdir
    rcases h.only path _ hdir with ⟨f, hf, rfl⟩ | ⟨_, hnil | hproper⟩
    · obtain ⟨data, hfile, _⟩ := h.files f hf
      rw [hdir] at hfile
      cases hfile
    · exact absurd hnil hne
    · exact hproper
  · intro path node hne hpath
    by_cases hsame : path = [manifestName]
    · rw [hsame]
      exact .inr ⟨text, false, hmanifest⟩
    · rw [hother path hsame] at hpath
      rcases h.only path node hpath with ⟨f, hf, rfl⟩ | ⟨hdir, _⟩
      · obtain ⟨data, hfile, _⟩ := h.files f hf
        exact .inr ⟨data, f.executable, (hlisted f hf).trans hfile⟩
      · exact .inl hdir

end

/-! ## Reading the manifest back -/

theorem decodeUtf8_utf8 (s : String) : decodeUtf8 (utf8 s) = some s := by
  rw [decodeUtf8, utf8, Array.toArray_toList]
  exact dif_pos s.isValidUTF8

theorem loads_dumps (P : Python) {value : Json}
    (h : JsonText.plain value.sortKeys = true) :
    loads P (dumps P value) = some value.sortKeys := by
  have hspaces : ∀ c ∈ ['\n'], JsonText.isWhitespace c = true := by
    intro c hc
    rw [List.mem_singleton.mp hc]
    rfl
  rw [loads, dumps, decodeUtf8_utf8, JsonText.some_bind, String.toList_ofList]
  exact JsonText.loads_render P.float (JsonText.indented_legible P.floatRepr) h
    hspaces

/-- An entry holds two texts and a flag, and nothing else is printed. -/
theorem Listed.WrittenAs.plain {f : Listed} {entry : Json}
    (h : f.WrittenAs entry) : JsonText.plain entry.sortKeys = true := by
  obtain ⟨members, rfl, hfields, hpath, hdigest, hflag⟩ := h
  rw [Json.sortKeys_obj, JsonText.plain, JsonText.plainMembers_iff]
  intro m hm
  obtain ⟨value, hvalue, hsorted⟩ := Json.get_of_mem_sortedMembers hm
  have hname : m.1 ∈ ["path", "sha256", "executable"] :=
    (Json.hasExactly_iff.mp hfields m.1).mp
      (List.mem_map.mpr ⟨_, Json.mem_of_get hvalue, rfl⟩)
  rw [← hsorted]
  simp only [List.mem_cons, List.not_mem_nil, or_false] at hname
  rcases hname with hname | hname | hname
  · rw [hname, hpath] at hvalue
    injection hvalue with hvalue
    simp [← hvalue, Json.sortKeys]
  · rw [hname, hdigest] at hvalue
    injection hvalue with hvalue
    simp [← hvalue, Json.sortKeys]
  · rw [hname, hflag] at hvalue
    injection hvalue with hvalue
    simp [← hvalue, Json.sortKeys]

theorem plain_manifestOf {files : List Listed} {items : List Json}
    (h : List.Forall₂ Listed.WrittenAs files items) :
    JsonText.plain (manifestOf (.arr items)).sortKeys = true := by
  have hitems : JsonText.plainItems (items.map Json.sortKeys) = true := by
    induction h with
    | nil => simp
    | cons hentry _ ih =>
        rw [List.map_cons, JsonText.plainItems, hentry.plain, ih]
        rfl
  rw [manifestOf, Json.sortKeys_obj, JsonText.plain, JsonText.plainMembers_iff]
  intro m hm
  obtain ⟨value, hvalue, hsorted⟩ := Json.get_of_mem_sortedMembers hm
  rw [← hsorted]
  rcases List.mem_cons.mp (Json.mem_of_get hvalue) with hmem | hmem
  · injection hmem with _ hmem
    rw [hmem]
    decide
  · injection List.mem_singleton.mp hmem with _ hmem
    rw [hmem, Json.sortKeys_arr, JsonText.plain]
    exact hitems

theorem Listed.WrittenAs.sortKeys {f : Listed} {entry : Json}
    (h : f.WrittenAs entry) : f.WrittenAs entry.sortKeys := by
  obtain ⟨members, rfl, hfields, hpath, hdigest, hflag⟩ := h
  refine ⟨Json.sortedMembers members, Json.sortKeys_obj members,
    Json.hasExactly_sortedMembers hfields, ?_, ?_, ?_⟩
  · rw [Json.get_sortedMembers, hpath]
    rfl
  · rw [Json.get_sortedMembers, hdigest]
    rfl
  · rw [Json.get_sortedMembers, hflag]
    rfl

theorem Inventory.writtenAs_manifestOf {inventory : Inventory}
    {items : List Json}
    (h : List.Forall₂ Listed.WrittenAs inventory.files items) :
    inventory.WrittenAs (manifestOf (.arr items)).sortKeys := by
  refine ⟨_, items.map Json.sortKeys, Json.sortKeys_obj _,
    Json.hasExactly_sortedMembers rfl, ?_, ?_, ?_⟩
  · rw [Json.get_sortedMembers]
    rfl
  · rw [Json.get_sortedMembers, ← Json.sortKeysItems_eq]
    rfl
  · rw [List.forall₂_map_right_iff]
    exact h.imp fun f entry hwritten => hwritten.sortKeys

/-! ## The whole run -/

/-- What a plan selects: the text of its source root, and an inventory as
these JSON values. -/
def Selects (plan : Json) (rootText : String) (items : List Json)
    (inventory : Inventory) : Prop :=
  ∃ members repositories repository, plan = .obj members ∧
    Json.get members "repositories" = some (.obj repositories) ∧
    Json.get repositories "tee" = some (.obj repository) ∧
    Json.get repository "root" = some (.str rootText) ∧
    Json.get repository "files" = some (.arr items) ∧
    List.Forall₂ Listed.WrittenAs inventory.files items

/-- The steps of a run that went through: `fresh` is the tree with the
destination in it, `begun` has the snapshot directory too, and `filled` is
what the loop over the entries left. -/
structure Ran (P : Python) (w w' : World) (destination root : AbsPath)
    (rootText : String) (items : List Json) (inventory : Inventory)
    (fresh begun : Tree) (filled : World) : Prop where
  way : Unlinked w.tree destination
  made : mkdir w.tree destination = .ok fresh
  resolved : P.resolve fresh rootText = some root
  apart : ∀ p, ¬destination <+: root ++ p
  unreserved : inventory.Unreserved
  started : mkdir fresh (destination ++ [sapioTee]) = .ok begun
  copied : Copied P ⟨begun, w.trace⟩ root (destination ++ [sapioTee])
    inventory.files filled
  tree : ∀ p, w'.tree.node p
    = if p = destination ++ [sapioTee] ++ [manifestName] then
        some (.leaf (.file (dumps P (manifestOf (.arr items))) false))
      else filled.tree.node p
  trace : w'.trace
    = filled.trace ++ [.wrote (destination ++ [sapioTee] ++ [manifestName])]

/-- `Path.resolve` leaves no link on the way. -/
def Python.ResolvesLinks (P : Python) : Prop :=
  ∀ t text path, P.resolve t text = some path → Unlinked t path

section

variable {P : Python}

theorem resolveStrict_ok {t : Tree} {text : String} {path : AbsPath}
    (h : resolveStrict P t text = .ok path) :
    P.resolve t text = some path ∧ t.node path ≠ none := by
  rw [resolveStrict] at h
  split at h
  · next found hfound =>
      split at h
      · next hsome =>
          injection h with h
          rw [← h]
          refine ⟨hfound, ?_⟩
          intro hnone
          rw [hnone] at hsome
          cases hsome
      · cases h
  · cases h

/-- A source root that exists and does not hold the destination is apart
from it: the destination was empty when the root was resolved. -/
theorem apart_of {t made : Tree} {destination root : AbsPath}
    (hway : Unlinked t destination.dropLast)
    (hmade : mkdir t destination = .ok made) (hroot : made.node root ≠ none)
    (hout : ¬root <+: destination) (p : AbsPath) :
    ¬destination <+: root ++ p := by
  intro hlead
  have hself : root <+: root ++ p := List.prefix_append _ _
  rcases Nat.le_total root.length destination.length with hle | hge
  · exact hout (List.prefix_of_prefix_length_le hself hlead hle)
  · obtain ⟨rest, hrest⟩ :=
      List.prefix_of_prefix_length_le hlead hself hge
    have hne : rest ≠ [] := by
      intro hnil
      rw [hnil, List.append_nil] at hrest
      exact hout (hrest ▸ List.prefix_refl _)
    rw [← hrest] at hroot
    exact hroot (mkdir_empty hway hmade hne)

/-- One turn of the loop over `LAYOUT`. -/
theorem createSnapshot_ok {repositories : Members} {destination : AbsPath}
    {w w' : World} {place : String × Name}
    (h : createSnapshot P repositories destination w place = .ok w') :
    ∃ (repository : Members) (rootText : String) (root : AbsPath)
        (items : List Json) (inventory : Inventory) (begun tree : Tree)
        (filled written : World),
      (Json.get repositories place.1 = some (.obj repository) ∧
        Json.get repository "root" = some (.str rootText) ∧
        Json.get repository "files" = some (.arr items) ∧
        List.Forall₂ Listed.WrittenAs inventory.files items) ∧
      inventory.Unreserved ∧
      (P.resolve w.tree rootText = some root ∧ w.tree.node root ≠ none ∧
        ¬root <+: destination) ∧
      mkdir w.tree (destination ++ [place.2]) = .ok begun ∧
      inventory.entries.foldlM (copyEntry P place.1 root
        (destination ++ [place.2])) ⟨begun, w.trace⟩ = .ok filled ∧
      (writeJson P filled (destination ++ [place.2] ++ [manifestName])
          (manifestOf (.arr items)) = .ok written ∧
        chmod written.tree (destination ++ [place.2] ++ [manifestName]) false
          = .ok tree) ∧
      w' = ⟨tree, written.trace⟩ := by
  rw [createSnapshot] at h
  obtain ⟨value, hvalue, h⟩ := bind_ok h
  obtain ⟨repository, hrepository, h⟩ := bind_ok h
  obtain ⟨rootValue, hrootValue, h⟩ := bind_ok h
  obtain ⟨rootText, hrootText, h⟩ := bind_ok h
  obtain ⟨root, hroot, h⟩ := bind_ok h
  obtain ⟨_, hout, h⟩ := bind_ok h
  obtain ⟨files, hfiles, h⟩ := bind_ok h
  obtain ⟨entries, hentries, h⟩ := bind_ok h
  obtain ⟨begun, hbegun, h⟩ := bind_ok h
  obtain ⟨filled, hfilled, h⟩ := bind_ok h
  obtain ⟨written, hwritten, h⟩ := bind_ok h
  obtain ⟨tree, htree, h⟩ := bind_ok h
  injection h with hworld
  obtain ⟨inventory, items, hitems, hlisted, hfree, hinventory⟩ :=
    entriesByPath_ok P hentries
  have hrootJson : rootValue = .str rootText := by
    cases rootValue with
    | str s =>
        injection hrootText with hrootText
        rw [hrootText]
    | _ => cases hrootText
  have hapart : ¬root <+: destination := by
    intro hlead
    have hchecked := require_ok hout
    rw [List.isPrefixOf_iff_prefix.mpr hlead] at hchecked
    cases hchecked
  have hvalue := item_ok hvalue
  have hrootValue := item_ok hrootValue
  have hfiles := item_ok hfiles
  rw [(dict_ok hrepository).1] at hvalue
  rw [hrootJson] at hrootValue
  rw [hitems] at hfiles hwritten
  rw [hinventory] at hfilled
  obtain ⟨hresolved, hexists⟩ := resolveStrict_ok hroot
  exact ⟨repository, rootText, root, items, inventory, begun, tree, filled,
    written, ⟨hvalue, hrootValue, hfiles, hlisted⟩, hfree,
    ⟨hresolved, hexists, hapart⟩, hbegun, hfilled, ⟨hwritten, htree⟩,
    hworld.symm⟩

theorem resolve_some {t : Tree} {text : String} {path : AbsPath}
    (h : outside ((P.resolve t text).elim (.error "OSError") .ok)
      = .ok path) : P.resolve t text = some path := by
  cases hfound : P.resolve t text with
  | none =>
      rw [hfound] at h
      cases h
  | some found =>
      rw [hfound] at h
      injection h with h
      rw [h]

theorem createSnapshots_ok {w w' : World} {plan : Json} {text : String}
    {destination : AbsPath} (hlinks : P.ResolvesLinks)
    (h : createSnapshots P w plan text = .ok (destination, w')) :
    ∃ rootText root items inventory fresh begun filled,
      Selects plan rootText items inventory ∧
        Ran P w w' destination root rootText items inventory fresh begun
          filled := by
  rw [createSnapshots] at h
  obtain ⟨members, hplan, h⟩ := bind_ok h
  obtain ⟨version, _, h⟩ := bind_ok h
  obtain ⟨_, _, h⟩ := bind_ok h
  obtain ⟨value, hvalue, h⟩ := bind_ok h
  obtain ⟨repositories, hrepositories, h⟩ := bind_ok h
  obtain ⟨target, htarget, h⟩ := bind_ok h
  obtain ⟨fresh, hmade, h⟩ := bind_ok h
  obtain ⟨last, hlast, h⟩ := bind_ok h
  injection h with h
  injection h with hsame hworld
  rw [hsame] at htarget hmade hlast
  rw [hworld] at hlast
  obtain ⟨only, honly, hlast⟩ := bind_ok hlast
  injection hlast with hlast
  rw [hlast] at honly
  obtain ⟨repository, rootText, root, items, inventory, begun, tree, filled,
    written, ⟨hrepository, hroot, hfiles, hlisted⟩, hfree,
    ⟨hresolved, hexists, hout⟩, hbegun, hfilled, ⟨hwritten, htree⟩, rfl⟩ :=
    createSnapshot_ok honly
  have hway := hlinks _ _ _ (resolve_some htarget)
  have hapart := apart_of hway.dropLast hmade hexists hout
  obtain ⟨_, _, _, hfresh⟩ := mkdir_ok hway.dropLast hmade
  have hdir : fresh.node destination = some .dir := by
    rw [hfresh, if_pos rfl]
  have hplace : Unlinked fresh (destination ++ [sapioTee]).dropLast := by
    rw [List.dropLast_concat]
    exact unlinked_of_node hdir (by simp)
  obtain ⟨_, _, _, hstarted⟩ := mkdir_ok hplace hbegun
  have hrootWay : Unlinked begun root := by
    refine (hlinks _ _ _ hresolved).of_node fun p _ => ?_
    rw [hstarted]
    split
    · exact .inr rfl
    · exact .inl rfl
  have hvalue := item_ok hvalue
  rw [(dict_ok hrepositories).1] at hvalue
  have hbelow : ∀ p, ¬destination ++ [sapioTee] <+: root ++ p := by
    intro p hlead
    exact hapart p ((List.prefix_append _ _).trans hlead)
  have hnil : Copied P ⟨begun, w.trace⟩ root (destination ++ [sapioTee]) []
      ⟨begun, w.trace⟩ := copied_nil hplace hbegun
  have hrun := hnil.run inventory.files hbelow hrootWay inventory.canonical
    hfilled
  obtain ⟨_, htrace, hnode⟩ :=
    manifest_ok (hrun.unlinked [manifestName]).dropLast hwritten htree
  exact ⟨rootText, root, items, inventory, fresh, begun, filled,
    ⟨members, repositories, repository, (dict_ok hplan).1, hvalue,
      hrepository, hroot, hfiles, hlisted⟩,
    hway, hmade, hresolved, hapart, hfree, hbegun, hrun, hnode, htrace⟩

namespace Ran

variable {w w' : World} {destination root : AbsPath} {rootText : String}
  {items : List Json} {inventory : Inventory} {fresh begun : Tree}
  {filled : World}

/-- The tree with the destination in it. -/
theorem fresh_node (h : Ran P w w' destination root rootText items inventory
    fresh begun filled) (p : AbsPath) :
    fresh.node p = if p = destination then some .dir else w.tree.node p :=
  (mkdir_ok h.way.dropLast h.made).2.2.2 p

/-- The tree with the snapshot directory in it. -/
theorem begun_node (h : Ran P w w' destination root rootText items inventory
    fresh begun filled) (p : AbsPath) :
    begun.node p = if p = destination ++ [sapioTee] then some .dir
      else fresh.node p := by
  refine (mkdir_ok ?_ h.started).2.2.2 p
  have hdir : fresh.node destination = some .dir := by
    rw [h.fresh_node, if_pos rfl]
  rw [List.dropLast_concat]
  exact unlinked_of_node hdir (by simp)

/-- Nothing that is not under the destination is changed. -/
theorem outside (h : Ran P w w' destination root rootText items inventory
    fresh begun filled) {p : AbsPath} (hp : ¬destination <+: p) :
    w'.tree.node p = w.tree.node p := by
  have hbelow : ∀ q, ¬destination ++ q <+: p := by
    intro q hlead
    exact hp ((List.prefix_append _ _).trans hlead)
  have hne : ∀ q, p ≠ destination ++ q := by
    intro q hsame
    exact hbelow q (hsame ▸ List.prefix_refl _)
  have hmanifest : p ≠ destination ++ [sapioTee] ++ [manifestName] := by
    rw [List.append_assoc]
    exact hne _
  have hself : p ≠ destination := by
    have := hne []
    rwa [List.append_nil] at this
  rw [h.tree, if_neg hmanifest, h.copied.outside p (hbelow _)]
  show begun.node p = _
  rw [h.begun_node, if_neg (hne _), h.fresh_node, if_neg hself]

/-- The source as the loop found it is the source there was. -/
theorem source (h : Ran P w w' destination root rootText items inventory
    fresh begun filled) (path : List Name) :
    begun.node (root ++ path) = w.tree.node (root ++ path) := by
  have hne : ∀ q, root ++ path ≠ destination ++ q := by
    intro q hsame
    exact h.apart path (hsame ▸ List.prefix_append _ _)
  have hself : root ++ path ≠ destination := by
    have := hne []
    rwa [List.append_nil] at this
  rw [h.begun_node, if_neg (hne _), h.fresh_node, if_neg hself]

theorem verified (h : Ran P w w' destination root rootText items inventory
    fresh begun filled)
    (hlisted : List.Forall₂ Listed.WrittenAs inventory.files items)
    {name : String}
    (hname : P.resolve w'.tree name = some (destination ++ [sapioTee])) :
    verifySnapshot P w'.tree name = .ok (destination ++ [sapioTee]) := by
  have hplaced : Placed P w'.tree name (destination ++ [sapioTee])
      (dumps P (manifestOf (.arr items))) := by
    refine ⟨hname, false, ?_⟩
    rw [h.tree, if_pos rfl]
  exact verified_of_matches hplaced (loads_dumps P (plain_manifestOf hlisted))
    (Inventory.writtenAs_manifestOf hlisted)
    (h.copied.matches h.unreserved h.tree)

/-- The accesses of the run. -/
theorem accesses_eq (h : Ran P w w' destination root rootText items inventory
    fresh begun filled) :
    w'.trace = w.trace ++ (accesses root (destination ++ [sapioTee])
      inventory.files ++
        [.wrote (destination ++ [sapioTee] ++ [manifestName])]) := by
  rw [h.trace, h.copied.trace, List.append_assoc]

end Ran

end

/-- A file that was read: it is a regular file, and everything from the root
to it is a real directory. -/
def Reached (t : Tree) (root : AbsPath) (path : List Name) : Prop :=
  IsFile t (root ++ path) ∧
    ∀ i < path.length, t.node (root ++ path.take i) = some .dir

theorem reached_of_file {t : Tree} {root : AbsPath} {path : List Name}
    (h : IsFile t (root ++ path)) : Reached t root path := by
  refine ⟨h, ?_⟩
  intro i hi
  obtain ⟨data, executable, hnode⟩ := h
  rw [← List.take_append_drop i path, ← List.append_assoc] at hnode
  refine FileTree.node_ancestor hnode ?_
  intro hnil
  have hlen := congrArg List.length hnil
  rw [List.length_drop, List.length_nil] at hlen
  omega

theorem mem_accesses {root snapshot : AbsPath} {files : List Listed}
    {access : Access} (h : access ∈ accesses root snapshot files) :
    ∃ f ∈ files, access = .read (root ++ f.path) ∨
      access = .wrote (snapshot ++ f.path) := by
  obtain ⟨f, hf, hmem⟩ := List.mem_flatMap.mp h
  refine ⟨f, hf, ?_⟩
  rcases List.mem_cons.mp hmem with hread | hmem
  · exact .inl hread
  · exact .inr (List.mem_singleton.mp hmem)

/-- A verified snapshot is exactly its reviewed inventory. Verification
succeeds if and only if the manifest writes down an inventory and the tree is
that inventory; two trees that verify with one manifest agree, hash
collisions apart; and, where resolving a path leaves no link in it, what
creation writes is verified and lies at its listed path under the snapshot
directory, and the place of every file it read was reached through real
directories. -/
theorem snapshot_exact (P : Python) :
    (∀ (t : Tree) (name : String) (snapshot : AbsPath) (text : Bytes),
      Placed P t name snapshot text →
        ((∃ path, verifySnapshot P t name = .ok path) ↔
          ∃ (inventory : Inventory) (manifest : Json),
            loads P text = some manifest ∧ inventory.WrittenAs manifest ∧
              inventory.Matches P t snapshot)) ∧
    (∀ (t u : Tree) (name name' : String) (snapshot other path path' : AbsPath)
      (text : Bytes), Placed P t name snapshot text →
        Placed P u name' other text → verifySnapshot P t name = .ok path →
          verifySnapshot P u name' = .ok path' → ∀ p,
            (p = [manifestName] →
              t.node (snapshot ++ p) = u.node (other ++ p)) →
              Agree P (t.node (snapshot ++ p)) (u.node (other ++ p))) ∧
    (P.ResolvesLinks → ∀ (w w' : World) (plan : Json) (text : String)
      (destination : AbsPath),
      createSnapshots P w plan text = .ok (destination, w') →
        ∃ (rootText : String) (root : AbsPath) (items : List Json)
          (inventory : Inventory) (fresh : Tree) (made : List Access),
          Selects plan rootText items inventory ∧
          (mkdir w.tree destination = .ok fresh ∧
            P.resolve fresh rootText = some root) ∧
          (∀ name, P.resolve w'.tree name = some (destination ++ [sapioTee]) →
            verifySnapshot P w'.tree name
              = .ok (destination ++ [sapioTee])) ∧
          w'.trace = w.trace ++ made ∧
          (∀ path, .wrote path ∈ made →
            path = destination ++ [sapioTee] ++ [manifestName] ∨
              ∃ f ∈ inventory.files,
                path = destination ++ [sapioTee] ++ f.path) ∧
          (∀ path, .read path ∈ made → ∃ f ∈ inventory.files,
            path = root ++ f.path ∧ Reached w.tree root f.path) ∧
          ∀ path, ¬destination <+: path →
            w'.tree.node path = w.tree.node path) := by
  refine ⟨?_, ?_, ?_⟩
  · intro t name snapshot text hplaced
    refine ⟨?_, ?_⟩
    · intro h
      obtain ⟨path, hverified⟩ := h
      exact matches_of_verified hplaced hverified
    · intro h
      obtain ⟨inventory, manifest, hloads, hwritten, hmatches⟩ := h
      exact ⟨snapshot, verified_of_matches hplaced hloads hwritten hmatches⟩
  · intro t u name name' snapshot other path path' text ht hu hverified
      hverified' p hmanifest
    by_cases hp : p = [manifestName]
    · exact .inl (hmanifest hp)
    · obtain ⟨i, manifest, hloads, hi, hit⟩ := matches_of_verified ht hverified
      obtain ⟨j, manifest', hloads', hj, hju⟩ :=
        matches_of_verified hu hverified'
      rw [hloads] at hloads'
      injection hloads' with hsame
      rw [← hsame] at hj
      exact hit.agree hju (Inventory.files_eq hi hj) hp
  · intro hlinks w w' plan text destination h
    obtain ⟨rootText, root, items, inventory, fresh, begun, filled, hselects,
      hran⟩ := createSnapshots_ok hlinks h
    have hlisted : List.Forall₂ Listed.WrittenAs inventory.files items := by
      obtain ⟨_, _, _, _, _, _, _, _, hlisted⟩ := hselects
      exact hlisted
    refine ⟨rootText, root, items, inventory, fresh, _, hselects,
      ⟨hran.made, hran.resolved⟩, ?_, hran.accesses_eq, ?_, ?_, ?_⟩
    · intro name hname
      exact hran.verified hlisted hname
    · intro path hmem
      rcases List.mem_append.mp hmem with hmem | hmem
      · obtain ⟨f, hf, haccess | haccess⟩ := mem_accesses hmem
        · cases haccess
        · injection haccess with haccess
          exact .inr ⟨f, hf, haccess⟩
      · injection List.mem_singleton.mp hmem with haccess
        exact .inl haccess
    · intro path hmem
      rcases List.mem_append.mp hmem with hmem | hmem
      · obtain ⟨f, hf, haccess | haccess⟩ := mem_accesses hmem
        · injection haccess with haccess
          obtain ⟨data, _, hsource, _⟩ := hran.copied.files f hf
          refine ⟨f, hf, haccess, reached_of_file ⟨data, f.executable, ?_⟩⟩
          rw [← hran.source]
          exact hsource
        · cases haccess
      · cases List.mem_singleton.mp hmem
    · intro path hpath
      exact hran.outside hpath

/-! ## A small snapshot -/

namespace Small

def cargo : Bytes := ascii "[package]\nname = \"demo\"\n"

def script : Bytes := ascii "#!/bin/sh\nexit 0\n"

def cargoDigest : String :=
  "5f55e5180ed66d818f61920fd7b0205a164b782a105610f293acd5ec68d0eacb"

def scriptDigest : String :=
  "306c6ca7407560340797866e077e053627ad409277d1b9da58106fce4cf717cb"

/-- The hash a digest is the text of. -/
def hashFrom (text : String) : Hash :=
  ((blockHashFromStr text).map Vector.reverse).getD allZeros

def items : List Json :=
  [.obj [("path", .str "Cargo.toml"), ("sha256", .str cargoDigest),
      ("executable", .bool false)],
    .obj [("path", .str "scripts/run.sh"), ("sha256", .str scriptDigest),
      ("executable", .bool true)]]

def isSymlinkAt (t : Tree) (path : AbsPath) : Bool :=
  match t.node path with
  | some (.leaf (.link _)) => true
  | _ => false

/-- A path that meets no link is its own resolution. -/
def resolve (t : Tree) (text : String) : Option AbsPath :=
  let path := (purePosixPath text).tail
  if path.inits.any (isSymlinkAt t) then none else some path

def python : Python where
  sha256 := fun data =>
    if data = cargo then hashFrom cargoDigest
    else if data = script then hashFrom scriptDigest
    else allZeros
  float := fun _ => .float 0
  floatRepr := fun _ => "0.0".toList
  resolve := resolve
  repr := fun s => "'" ++ s ++ "'"

def named (s : String) (h : s.toList ≠ [] ∧ s.toList ≠ ['.'] ∧
    '/' ∉ s.toList) : Name := ⟨s.toList, h⟩

def src : Name := named "src" (by decide)

def scripts : Name := named "scripts" (by decide)

def out : Name := named "out" (by decide)

def run : Name := named "run.sh" (by decide)

def notes : Name := named "notes" (by decide)

def worktree : Tree :=
  FileTree.bare.add [] src .dir (by decide) (by decide)

/-- Two sources, one of them executable, and a link out of the worktree that
is not listed. -/
def tree : Tree :=
  let t := worktree.add [src] cargoToml (.leaf (.file cargo false))
    (by decide +kernel) (by decide +kernel)
  let t := t.add [src] scripts .dir (by decide +kernel) (by decide +kernel)
  let t := t.add [src, scripts] run (.leaf (.file script true))
    (by decide +kernel) (by decide +kernel)
  t.add [src] notes (.leaf (.link ⟨false, [.up, .into out]⟩))
    (by decide +kernel) (by decide +kernel)

def plan : Json :=
  .obj [("version", .int 1), ("repositories", .obj [("tee",
    .obj [("root", .str "/src"), ("files", .arr items)])])]

theorem resolve_some {t : Tree} {text : String} {path : AbsPath} :
    resolve t text = some path ↔
      path = (purePosixPath text).tail ∧ Unlinked t path := by
  have hlink : ∀ p, isSymlinkAt t p = false ↔ ∀ content,
      t.node p = some (.leaf content) → linkTarget content = none := by
    intro p
    rw [isSymlinkAt]
    split
    · next target h => simp [h, linkTarget]
    · next hnot =>
        refine iff_of_true rfl ?_
        intro content hleaf
        cases content with
        | link target => exact absurd hleaf (hnot target)
        | file data executable => rfl
        | special => rfl
  have hany : ∀ p : AbsPath, p.inits.any (isSymlinkAt t) = false ↔
      Unlinked t p := by
    intro p
    simp only [List.any_eq_false, List.mem_inits, Bool.not_eq_true, hlink]
    exact ⟨fun h q content hq => h q hq content,
      fun h q hq content => h q content hq⟩
  show (if _ then _ else _) = _ ↔ _
  cases hsome : (purePosixPath text).tail.inits.any (isSymlinkAt t) with
  | true =>
      simp only [if_true, reduceCtorEq, false_iff]
      rintro ⟨rfl, hway⟩
      rw [(hany _).mpr hway] at hsome
      cases hsome
  | false =>
      simp only [Bool.false_eq_true, if_false, Option.some.injEq]
      constructor
      · rintro rfl
        exact ⟨rfl, (hany _).mp hsome⟩
      · rintro ⟨rfl, -⟩
        rfl

theorem resolvesLinks : python.ResolvesLinks := by
  intro t text path h
  exact (resolve_some.mp h).2

theorem created :
    (createSnapshots python ⟨tree, []⟩ plan "/out").toOption.map
        (fun made => (made.1, python.resolve made.2.tree "/out/sapio_tee"))
      = some ([out], some [out, sapioTee]) := by
  decide +kernel

end Small

/-- A snapshot that was created and is verified. -/
theorem snapshot_exact_small :
    ∃ w', createSnapshots Small.python ⟨Small.tree, []⟩ Small.plan "/out"
        = .ok ([Small.out], w') ∧
      verifySnapshot Small.python w'.tree "/out/sapio_tee"
        = .ok [Small.out, sapioTee] := by
  have hcreated := Small.created
  cases hrun : createSnapshots Small.python ⟨Small.tree, []⟩ Small.plan
      "/out" with
  | error e =>
      rw [hrun] at hcreated
      cases hcreated
  | ok result =>
      obtain ⟨destination, w'⟩ := result
      rw [hrun] at hcreated
      injection hcreated with hcreated
      injection hcreated with hdestination hname
      have hdestination : destination = [Small.out] := hdestination
      rw [hdestination] at hrun
      obtain ⟨rootText, root, items, inventory, fresh, made, _, _,
        hverified, _⟩ := (snapshot_exact Small.python).2.2
          Small.resolvesLinks _ _ _ _ _ hrun
      exact ⟨w', by rw [hdestination], hverified _ hname⟩

end SapioTee.Snapshot
