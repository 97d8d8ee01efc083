import Mathlib.Data.List.ReduceOption
import SapioTee.Model.SourcePlan
import SapioTee.Proofs.Record
import SapioTee.Proofs.SnapshotCreate

/-!
# What `plan` lists, `create` copies

A plan that was written and read back selects the files it was made from. As
long as these are what they were, nothing in the source can make the copy
fail: two files that exist side by side never need one path as a file and as
a directory. What remains is the destination, and two names: the plan must
list `Cargo.toml`, and no file may lie in a directory of the manifest's name,
which the script's check of paths does not see.
-/

namespace SapioTee.Snapshot

open Lib

/-! ## The operations, when they go through -/

theorem create_of {t : Tree} {path : AbsPath} (node : Node Leaf)
    (hne : path ≠ []) (hdir : t.node path.dropLast = some .dir)
    (hfree : t.node path = none) :
    ∃ t', create t path node = .ok (path, t') := by
  have hpath : path.dropLast ++ [path.getLast hne] = path :=
    List.dropLast_append_getLast hne
  have hboth : t.node path.dropLast = some .dir ∧
      t.node (path.dropLast ++ [path.getLast hne]) = none := by
    rw [hpath]
    exact ⟨hdir, hfree⟩
  rw [create, dif_neg hne, locate_of hdir (by simp), ok_bind, dif_pos hboth,
    hpath]
  exact ⟨_, rfl⟩

theorem chmod_of {t : Tree} {path : AbsPath} {data : Bytes} {old : Bool}
    (executable : Bool)
    (h : t.node path = some (.leaf (.file data old))) :
    ∃ t', chmod t path executable = .ok t' := by
  rw [chmod, locate_of h (by simp), ok_bind]
  split
  · exact ⟨_, rfl⟩
  · exact ⟨_, rfl⟩
  · next hnot _ => exact absurd h (hnot data old)

theorem mkdir_of {t : Tree} {path : AbsPath} (hne : path ≠ [])
    (hdir : t.node path.dropLast = some .dir) (hfree : t.node path = none) :
    ∃ t', mkdir t path = .ok t' := by
  obtain ⟨t', ht'⟩ := create_of .dir hne hdir hfree
  rw [mkdir, ht']
  exact ⟨t', rfl⟩

theorem mkdirParents_of {t : Tree} {above : AbsPath} {parts : List Name}
    (habove : t.node above = some .dir)
    (hway : ∀ p, OnWay above parts p →
      t.node p = none ∨ t.node p = some .dir) :
    ∃ t', mkdirParents t above parts = .ok t' := by
  induction parts generalizing t above with
  | nil => exact ⟨t, rfl⟩
  | cons name rest ih =>
      have hlast : (above ++ [name]).dropLast = above := List.dropLast_concat
      rw [mkdirParents]
      rcases hway (above ++ [name]) (onWay_cons.mpr (.inl rfl)) with
        hnone | hdir
      · have hplain : Unlinked t (above ++ [name]) := by
          refine (unlinked_of_node habove (by simp)).concat ?_
          intro content hleaf
          rw [hnone] at hleaf
          cases hleaf
        obtain ⟨made, hmade⟩ := mkdir_of (by simp) (by rwa [hlast]) hnone
        obtain ⟨_, _, _, hnode⟩ := mkdir_ok hplain.dropLast hmade
        cases hstat : stat t true (above ++ [name]) with
        | ok node =>
            rw [stat_ok hplain hstat] at hnone
            cases hnone
        | error e =>
            simp only [hmade, ok_bind]
            refine ih ?_ ?_
            · rw [hnode, if_pos rfl]
            · intro p hp
              rw [hnode]
              split
              · exact .inr rfl
              · exact hway p (onWay_cons.mpr (.inr hp))
      · have hstat : stat t true (above ++ [name]) = .ok .dir := by
          rw [stat, locate_of hdir (by simp), ok_bind, hdir]
          rfl
        rw [hstat]
        exact ih hdir fun p hp => hway p (onWay_cons.mpr (.inr hp))

/-- A file that is written with its mode. -/
theorem write_of {t : Tree} {target : AbsPath} (data : Bytes)
    (executable : Bool) (hne : target ≠ [])
    (hdir : t.node target.dropLast = some .dir)
    (hfree : t.node target = none) :
    ∃ written t', writeNew t target data = .ok (target, written) ∧
      chmod written target executable = .ok t' := by
  obtain ⟨written, hwritten⟩ :=
    create_of (.leaf (.file data false)) hne hdir hfree
  obtain ⟨_, _, _, _, hnode⟩ :=
    create_ok (unlinked_of_node hdir (by simp)) hwritten
  have hfile : written.node target = some (.leaf (.file data false)) := by
    rw [hnode, if_pos rfl]
  obtain ⟨t', hmode⟩ := chmod_of executable hfile
  exact ⟨written, t', hwritten, hmode⟩

/-! ## The loop -/

/-- The file is in the source as it is listed. -/
def Found (P : Python) (t : Tree) (root : AbsPath) (f : Listed) : Prop :=
  ∃ data, t.node (root ++ f.path) = some (.leaf (.file data f.executable)) ∧
    digest P data = f.sha256

/-- It still is, where the file has not changed. -/
theorem Found.of_node {P : Python} {t u : Tree} {root : AbsPath} {f : Listed}
    (h : Found P t root f)
    (hsame : u.node (root ++ f.path) = t.node (root ++ f.path)) :
    Found P u root f := by
  obtain ⟨data, hnode, hdigest⟩ := h
  exact ⟨data, hsame.trans hnode, hdigest⟩

section

variable {P : Python} {name : String} {root snapshot : AbsPath}
  {start w : World} {done files : List Listed} {f : Listed}

/-- Every directory above a target below a directory. -/
theorem way_free {t : Tree} {path : List Name} (hpath : path ≠ [])
    (hbase : t.node snapshot = some .dir)
    (hway : ∀ q, q <+: path → q ≠ path →
      t.node (snapshot ++ q) = none ∨ t.node (snapshot ++ q) = some .dir)
    {p : AbsPath} (h : Above (snapshot ++ path) p) :
    t.node p = none ∨ t.node p = some .dir := by
  obtain ⟨_, hlead, hne⟩ := (above_iff (target_ne_nil hpath)).mp h
  have hself : snapshot <+: snapshot ++ path := List.prefix_append _ _
  rcases Nat.le_total p.length snapshot.length with hle | hge
  · obtain ⟨rest, hrest⟩ := List.prefix_of_prefix_length_le hlead hself hle
    refine .inr ?_
    by_cases hnil : rest = []
    · rw [hnil, List.append_nil] at hrest
      rw [hrest]
      exact hbase
    · rw [← hrest] at hbase
      exact FileTree.node_ancestor hbase hnil
  · obtain ⟨q, rfl⟩ := List.prefix_of_prefix_length_le hself hlead hge
    refine hway q ((List.prefix_append_right_inj snapshot).mp hlead) ?_
    intro hsame
    exact hne (by rw [hsame])

/-- One turn goes through when nothing is in its way. -/
theorem copyEntry_of (hpath : Canonical f.path)
    (hreserved : f.path ≠ [manifestName]) (hfound : Found P w.tree root f)
    (hbase : w.tree.node snapshot = some .dir)
    (hfree : w.tree.node (snapshot ++ f.path) = none)
    (hway : ∀ q, q <+: f.path → q ≠ f.path →
      w.tree.node (snapshot ++ q) = none ∨
        w.tree.node (snapshot ++ q) = some .dir) :
    ∃ w', copyEntry P name root snapshot w f.entry = .ok w' := by
  obtain ⟨data, hnode, hdigest⟩ := hfound
  have htarget : snapshot ++ f.path ≠ [] := target_ne_nil hpath.1
  have htop : w.tree.node [] = some .dir := by
    by_cases hnil : snapshot = []
    · rw [hnil] at hbase
      exact hbase
    · rw [← List.nil_append snapshot] at hbase
      exact FileTree.node_ancestor hbase hnil
  have hfreeWay : ∀ p, Above (snapshot ++ f.path) p →
      w.tree.node p = none ∨ w.tree.node p = some .dir :=
    fun p hp => way_free hpath.1 hbase hway hp
  have hplain : Unlinked w.tree (snapshot ++ f.path).dropLast := by
    intro p content hp hleaf
    by_cases hnil : p = []
    · rw [hnil, htop] at hleaf
      cases hleaf
    · rcases hfreeWay p ⟨hp, List.length_pos_iff.mpr hnil⟩ with hnone | hdir
      · rw [hnone] at hleaf
        cases hleaf
      · rw [hdir] at hleaf
        cases hleaf
  obtain ⟨made, hmade⟩ := mkdirParents_of htop hfreeWay
  obtain ⟨hon, hoff⟩ := mkdirParents_ok hplain hmade
  have hdir : made.node (snapshot ++ f.path).dropLast = some .dir := by
    by_cases hnil : (snapshot ++ f.path).dropLast = []
    · rw [hnil, hoff [] fun hway => Nat.lt_irrefl _ hway.2]
      exact htop
    · refine (hon _ ⟨?_, List.length_pos_iff.mpr hnil⟩).1
      rw [List.nil_append]
  have hnone : made.node (snapshot ++ f.path) = none := by
    rw [hoff _ fun hway => Above.ne hway rfl]
    exact hfree
  obtain ⟨written, t', hwritten, hmode⟩ :=
    write_of data f.executable htarget hdir hnone
  have hopened := fileContent_join P hpath hreserved hnode
  have htail : (purePosixPath (join f.path)).tail = f.path :=
    tail_join hpath.1
  rw [copyEntry, Listed.entry, hopened, ok_bind]
  simp only [hdigest, beq_self_eq_true, Bool.and_self, require_true, ok_bind,
    htail, hmade, hwritten, hmode]
  exact ⟨_, rfl⟩

/-- A file is not above another file. -/
theorem eq_of_leaves {t : Tree} {p q : List Name} {leaf leaf' : Leaf}
    (hp : t.node (root ++ p) = some (.leaf leaf))
    (hq : t.node (root ++ q) = some (.leaf leaf')) (hlead : p <+: q) :
    p = q := by
  obtain ⟨rest, rfl⟩ := hlead
  by_cases hnil : rest = []
  · rw [hnil, List.append_nil]
  · rw [← List.append_assoc] at hq
    rw [FileTree.node_ancestor hq hnil] at hp
    cases hp

/-- Nothing that was copied is in the way of a file of the same source. -/
theorem Copied.next (h : Copied P start root snapshot done w)
    (hapart : ∀ p, ¬snapshot <+: root ++ p) (hpath : Canonical f.path)
    (hreserved : f.path ≠ [manifestName])
    (hfound : Found P start.tree root f)
    (hnew : f.path ∉ done.map Listed.path) :
    ∃ w', copyEntry P name root snapshot w f.entry = .ok w' := by
  have hsource : Found P w.tree root f :=
    hfound.of_node (h.outside _ (hapart f.path))
  obtain ⟨data, hnode, _⟩ := hfound
  refine copyEntry_of hpath hreserved hsource h.base ?_ ?_
  · rw [Option.eq_none_iff_forall_ne_some]
    intro node hsome
    rcases h.only _ node hsome with ⟨g, hg, hsame⟩ |
      ⟨-, hnil | ⟨g, hg, hlead, hne⟩⟩
    · exact hnew (List.mem_map.mpr ⟨g, hg, hsame.symm⟩)
    · exact hpath.1 hnil
    · obtain ⟨_, _, hother, _⟩ := h.files g hg
      exact hne (eq_of_leaves hnode hother hlead)
  · intro q hlead hne
    cases hsome : w.tree.node (snapshot ++ q) with
    | none => exact .inl rfl
    | some node =>
        rcases h.only _ node hsome with ⟨g, hg, rfl⟩ | ⟨hdir, -⟩
        · obtain ⟨_, _, hother, _⟩ := h.files g hg
          exact absurd (eq_of_leaves hother hnode hlead) hne
        · rw [hdir]
          exact .inr rfl

theorem Copied.progress (h : Copied P start root snapshot done w)
    (hapart : ∀ p, ¬snapshot <+: root ++ p)
    (hroot : Unlinked start.tree root)
    (hpaths : ∀ f ∈ files, Canonical f.path ∧ f.path ≠ [manifestName])
    (hfound : ∀ f ∈ files, Found P start.tree root f)
    (hnodup : ((done ++ files).map Listed.path).Nodup) :
    ∃ w', (files.map Listed.entry).foldlM (copyEntry P name root snapshot) w
      = .ok w' := by
  induction files generalizing done w with
  | nil => exact ⟨w, rfl⟩
  | cons f files ih =>
      obtain ⟨hpath, hreserved⟩ := hpaths f List.mem_cons_self
      have hnew : f.path ∉ done.map Listed.path := by
        rw [List.map_append, List.map_cons, List.nodup_append] at hnodup
        intro hmem
        exact hnodup.2.2 _ hmem _ List.mem_cons_self rfl
      have hturn : ∃ w', copyEntry P name root snapshot w f.entry = .ok w' :=
        h.next hapart hpath hreserved (hfound f List.mem_cons_self) hnew
      obtain ⟨next, hnext⟩ := hturn
      obtain ⟨w', hrun⟩ := ih (h.step hapart hroot hpath hnext)
        (fun g hg => hpaths g (List.mem_cons_of_mem f hg))
        (fun g hg => hfound g (List.mem_cons_of_mem f hg))
        (by rw [List.append_assoc]; exact hnodup)
      refine ⟨w', ?_⟩
      rw [List.map_cons, List.foldlM_cons, hnext, ok_bind, hrun]

end

/-! ## The whole run -/

/-- The JSON value that is a version 1 plan of one source. -/
structure IsPlan (plan : Json) (rootText : String) (items : List Json) :
    Prop where
  shape : ∃ members repositories repository, plan = .obj members ∧
    Json.hasExactly ["version", "repositories"] members = true ∧
    Json.get members "version" = some (.int 1) ∧
    Json.get members "repositories" = some (.obj repositories) ∧
    Json.hasExactly ["tee"] repositories = true ∧
    Json.get repositories "tee" = some (.obj repository) ∧
    Json.hasExactly ["root", "files"] repository = true ∧
    Json.get repository "root" = some (.str rootText) ∧
    Json.get repository "files" = some (.arr items)

/-- A place where a directory can be made. -/
structure Fresh (t : Tree) (destination : AbsPath) : Prop where
  ne_nil : destination ≠ []
  parent : t.node destination.dropLast = some .dir
  free : t.node destination = none

theorem Fresh.unlinked {t : Tree} {path : AbsPath} (h : Fresh t path) :
    Unlinked t path.dropLast :=
  unlinked_of_node h.parent (by simp)

theorem Fresh.mkdir {t : Tree} {path : AbsPath} (h : Fresh t path) :
    ∃ t', mkdir t path = .ok t' ∧
      ∀ p, t'.node p = if p = path then some .dir else t.node p := by
  obtain ⟨t', ht'⟩ := mkdir_of h.ne_nil h.parent h.free
  exact ⟨t', ht', (mkdir_ok h.unlinked ht').2.2.2⟩

section

variable {P : Python} {w : World} {destination root : AbsPath}
  {rootText : String} {items : List Json} {inventory : Inventory}

theorem manifest_of {path : AbsPath} (value : Json) (h : Fresh w.tree path) :
    ∃ written t', writeJson P w path value = .ok written ∧
      chmod written.tree path false = .ok t' := by
  obtain ⟨made, locked, hmade, hlocked⟩ :=
    write_of (dumps P value) false h.ne_nil h.parent h.free
  obtain ⟨_, _, _, _, hnode⟩ := create_ok h.unlinked hmade
  have hfile : made.node path
      = some (.leaf (.file (dumps P value) false)) := by
    rw [hnode, if_pos rfl]
  have hlast : locked.node path
      = some (.leaf (.file (dumps P value) false)) := by
    rw [chmod_file hfile hlocked, if_pos rfl]
  obtain ⟨t', hmode⟩ := chmod_of false hlast
  refine ⟨⟨locked, w.trace ++ [.wrote path]⟩, t', ?_, hmode⟩
  rw [writeJson, hmade, ok_bind]
  simp only [hlocked, ok_bind]
  rfl

/-- A directory that holds a file that is listed. -/
theorem root_dir {t : Tree} (hfound : ∀ f ∈ inventory.files, Found P t root f) :
    t.node root = some .dir := by
  obtain ⟨f, hf, _⟩ := List.mem_map.mp inventory.cargo
  obtain ⟨data, hdata, _⟩ := hfound f hf
  exact FileTree.node_ancestor hdata (inventory.canonical f hf).1

/-- The loop over the files, up to the place of the manifest. -/
theorem filled_of (hfree : inventory.Unreserved)
    (hapart : ∀ p, ¬destination <+: root ++ p)
    (hplace : Fresh w.tree (destination ++ [sapioTee]))
    (hfound : ∀ f ∈ inventory.files, Found P w.tree root f)
    (hmanifest : ∀ f ∈ inventory.files, ¬[manifestName] <+: f.path) :
    ∃ begun filled, mkdir w.tree (destination ++ [sapioTee]) = .ok begun ∧
      inventory.entries.foldlM (copyEntry P "tee" root
        (destination ++ [sapioTee])) ⟨begun, w.trace⟩ = .ok filled ∧
      Fresh filled.tree (destination ++ [sapioTee] ++ [manifestName]) := by
  obtain ⟨begun, hbegun, hnode⟩ := hplace.mkdir
  have hbelow : ∀ p, ¬destination ++ [sapioTee] <+: root ++ p := by
    intro p hlead
    exact hapart p ((List.prefix_append _ _).trans hlead)
  have hsource : ∀ f ∈ inventory.files, Found P begun root f := by
    intro f hf
    refine (hfound f hf).of_node ?_
    rw [hnode, if_neg]
    intro hsame
    exact hbelow f.path (hsame ▸ List.prefix_refl _)
  have hnil : Copied P ⟨begun, w.trace⟩ root (destination ++ [sapioTee]) []
      ⟨begun, w.trace⟩ := copied_nil hplace.unlinked hbegun
  have hroot : Unlinked begun root :=
    unlinked_of_node (root_dir hsource) (by simp)
  have hpaths : ∀ f ∈ inventory.files,
      Canonical f.path ∧ f.path ≠ [manifestName] :=
    fun f hf => ⟨inventory.canonical f hf, hfree f hf⟩
  have hrun : ∃ w', inventory.entries.foldlM (copyEntry P "tee" root
      (destination ++ [sapioTee])) ⟨begun, w.trace⟩ = .ok w' :=
    hnil.progress hbelow hroot hpaths hsource inventory.unique
  obtain ⟨filled, hfilled⟩ := hrun
  have hcopied := hnil.run inventory.files hbelow hroot inventory.canonical
    hfilled
  refine ⟨begun, filled, hbegun, hfilled, by simp, ?_, ?_⟩
  · rw [List.dropLast_concat]
    exact hcopied.base
  · rw [Option.eq_none_iff_forall_ne_some]
    intro node hsome
    rcases hcopied.only _ node hsome with ⟨f, hf, hsame⟩ |
      ⟨-, hcons | ⟨f, hf, hlead, -⟩⟩
    · exact hfree f hf hsame.symm
    · cases hcons
    · exact hmanifest f hf hlead

/-- One turn of the loop over `LAYOUT`, from the tree with the destination in
it. -/
theorem createSnapshot_of {repositories repository : Members}
    (hrepository : Json.get repositories "tee" = some (.obj repository))
    (hfields : Json.hasExactly ["root", "files"] repository = true)
    (hroot : Json.get repository "root" = some (.str rootText))
    (hfiles : Json.get repository "files" = some (.arr items))
    (hlisted : List.Forall₂ Listed.WrittenAs inventory.files items)
    (hfree : inventory.Unreserved)
    (hresolved : P.resolve w.tree rootText = some root)
    (hapart : ∀ p, ¬destination <+: root ++ p)
    (hplace : Fresh w.tree (destination ++ [sapioTee]))
    (hfound : ∀ f ∈ inventory.files, Found P w.tree root f)
    (hmanifest : ∀ f ∈ inventory.files, ¬[manifestName] <+: f.path) :
    ∃ w', createSnapshot P repositories destination w ("tee", sapioTee)
      = .ok w' := by
  obtain ⟨begun, filled, hbegun, hfilled, hlast⟩ :=
    filled_of hfree hapart hplace hfound hmanifest
  obtain ⟨written, tree, hwritten, htree⟩ :=
    @manifest_of P _ _ (manifestOf (.arr items)) hlast
  have hstrict : resolveStrict P w.tree rootText = .ok root := by
    rw [resolveStrict, hresolved]
    simp only [root_dir hfound, Option.isSome_some, if_true]
  have hchecked : (!root.isPrefixOf destination) = true := by
    rw [Bool.not_eq_true', ← Bool.not_eq_true, List.isPrefixOf_iff_prefix]
    rintro ⟨rest, rfl⟩
    exact hapart rest (List.prefix_refl _)
  rw [createSnapshot, item_of_get hrepository, ok_bind, dict_obj hfields,
    ok_bind, item_of_get hroot, ok_bind]
  simp only [Json.str?, Option.elim_some, outside, ok_bind, hstrict, hchecked,
    require_true, item_of_get hfiles, entriesByPath_of P hlisted hfree, hbegun,
    hfilled, hwritten, htree]
  exact ⟨_, rfl⟩

theorem createSnapshots_of {plan : Json} {text : String}
    (hplan : IsPlan plan rootText items)
    (hlisted : List.Forall₂ Listed.WrittenAs inventory.files items)
    (hfree : inventory.Unreserved)
    (htext : P.resolve w.tree text = some destination)
    (hplace : Fresh w.tree destination) (hout : ¬root <+: destination)
    (hresolved : ∀ t, t.node root = some .dir →
      P.resolve t rootText = some root)
    (hfound : ∀ f ∈ inventory.files, Found P w.tree root f)
    (hmanifest : ∀ f ∈ inventory.files, ¬[manifestName] <+: f.path) :
    ∃ w', createSnapshots P w plan text = .ok (destination, w') := by
  obtain ⟨members, repositories, repository, rfl, hmembers, hversion,
    hrepositories, htee, hrepository, hfields, hroot, hfiles⟩ := hplan.shape
  obtain ⟨made, hmade, hnode⟩ := hplace.mkdir
  have hsource : ∀ p, ¬p = destination → made.node p = w.tree.node p := by
    intro p hp
    rw [hnode, if_neg hp]
  have hdir : made.node root = some .dir := by
    rw [hsource root fun hsame => hout (hsame ▸ List.prefix_refl _)]
    exact root_dir hfound
  have hapart : ∀ p, ¬destination <+: root ++ p :=
    apart_of hplace.unlinked hmade (by simp [hdir]) hout
  have hfound' : ∀ f ∈ inventory.files, Found P made root f := by
    intro f hf
    refine (hfound f hf).of_node (hsource _ ?_)
    intro hsame
    exact hapart f.path (hsame ▸ List.prefix_refl _)
  have hnext : Fresh made (destination ++ [sapioTee]) := by
    refine ⟨by simp, ?_, mkdir_empty hplace.unlinked hmade (by simp)⟩
    rw [List.dropLast_concat, hnode, if_pos rfl]
  have hturn : ∃ w', createSnapshot P repositories destination
      ⟨made, w.trace⟩ ("tee", sapioTee) = .ok w' :=
    createSnapshot_of hrepository hfields hroot hfiles hlisted hfree
      (hresolved made hdir) hapart hnext hfound' hmanifest
  obtain ⟨w', hw'⟩ := hturn
  refine ⟨w', ?_⟩
  rw [createSnapshots, dict_obj hmembers, ok_bind, item_of_get hversion,
    ok_bind, item_of_get hrepositories]
  simp only [Json.int?, beq_self_eq_true, require_true, ok_bind, layout,
    List.map_cons, List.map_nil, dict_obj htee, htext, Option.elim_some,
    outside, hmade, List.foldlM_cons, List.foldlM_nil, hw']
  rfl

end

/-! ## The plan -/

section

variable {P : Python} {t : Tree} {root : AbsPath}

theorem entryFor_ok {relative : String} {entry : Entry}
    (hroot : Unlinked t root) (h : entryFor P t root relative = .ok entry) :
    ∃ f : Listed, f.Valid ∧ Found P t root f ∧ relative = join f.path ∧
      entry = f.entry.2 := by
  rw [entryFor] at h
  obtain ⟨opened, hopened, h⟩ := bind_ok h
  injection h with h
  obtain ⟨names, hnames, hmanifest, hjoin, -, hnode⟩ :=
    fileContent_ok P hroot hopened
  refine ⟨⟨names, digest P opened.data, opened.executable⟩,
    ⟨hnames, hmanifest, lowercaseHex64_hash _⟩, ⟨opened.data, hnode, rfl⟩,
    hjoin, ?_⟩
  rw [← h, hjoin]
  rfl

theorem mapM_entryFor_ok {names : List String} {entries : List Entry}
    (hroot : Unlinked t root) (h : names.mapM (entryFor P t root) = .ok entries) :
    ∃ files : List Listed, (∀ f ∈ files, f.Valid ∧ Found P t root f) ∧
      names = files.map (fun f => join f.path) ∧
      entries = files.map fun f => f.entry.2 := by
  induction names generalizing entries with
  | nil =>
      injection h with h
      exact ⟨[], by simp, rfl, h.symm⟩
  | cons name names ih =>
      rw [List.mapM_cons] at h
      obtain ⟨entry, hentry, h⟩ := bind_ok h
      obtain ⟨rest, hrest, h⟩ := bind_ok h
      injection h with h
      obtain ⟨f, hvalid, hfound, hname, hf⟩ := entryFor_ok hroot hentry
      obtain ⟨files, hall, hnames, hfiles⟩ := ih hrest
      refine ⟨f :: files, ?_, ?_, ?_⟩
      · intro g hg
        rcases List.mem_cons.mp hg with rfl | hg
        · exact ⟨hvalid, hfound⟩
        · exact hall g hg
      · rw [List.map_cons, hname, hnames]
      · rw [List.map_cons, ← h, hf, hfiles]

theorem mem_sortedSet {names : List String} {name : String} :
    name ∈ sortedSet names ↔ name ∈ names := by
  rw [sortedSet, List.mem_insertionSort, List.mem_dedup]

theorem nodup_sortedSet (names : List String) : (sortedSet names).Nodup :=
  (List.perm_insertionSort _ _).nodup_iff.mpr (List.nodup_dedup _)

def repositoryOf (root : AbsPath) (files : List Listed) : Members :=
  [("root", .str (pathStr root)),
    ("files", .arr (files.map fun f => f.entry.2.json))]

/-- The value of a plan. -/
def planOf (root : AbsPath) (files : List Listed) : Json :=
  .obj [("version", .int 1),
    ("repositories", .obj [("tee", .obj (repositoryOf root files))])]

theorem Listed.writtenAs_json (f : Listed) : f.WrittenAs f.entry.2.json :=
  ⟨_, rfl, rfl, rfl, rfl, rfl⟩

theorem forall₂_json (files : List Listed) :
    List.Forall₂ Listed.WrittenAs files
      (files.map fun f => f.entry.2.json.sortKeys) := by
  rw [List.forall₂_map_right_iff, List.forall₂_same]
  intro f _
  exact f.writtenAs_json.sortKeys

theorem plain_members {members : Members}
    (h : ∀ m ∈ members, JsonText.plain m.2.sortKeys = true) :
    JsonText.plain (Json.sortKeys (.obj members)) = true := by
  rw [Json.sortKeys_obj, JsonText.plain, JsonText.plainMembers_iff]
  intro m hm
  obtain ⟨value, hvalue, hsorted⟩ := Json.get_of_mem_sortedMembers hm
  rw [← hsorted]
  exact h _ (Json.mem_of_get hvalue)

theorem plain_planOf (root : AbsPath) (files : List Listed) :
    JsonText.plain (planOf root files).sortKeys = true := by
  have hitems : JsonText.plainItems
      ((files.map fun f => f.entry.2.json).map Json.sortKeys) = true := by
    induction files with
    | nil => simp
    | cons f files ih =>
        rw [List.map_cons, List.map_cons, JsonText.plainItems,
          f.writtenAs_json.plain, ih]
        rfl
  refine plain_members ?_
  simp only [List.forall_mem_cons]
  refine ⟨by decide, plain_members ?_, by simp⟩
  simp only [List.forall_mem_cons]
  refine ⟨plain_members ?_, by simp⟩
  simp only [repositoryOf, List.forall_mem_cons, Json.sortKeys_arr,
    JsonText.plain_arr]
  exact ⟨by simp [Json.sortKeys], hitems, by simp⟩

/-- What is read back is a plan of the same files. -/
theorem isPlan_planOf (root : AbsPath) (files : List Listed) :
    IsPlan (planOf root files).sortKeys (pathStr root)
      (files.map fun f => f.entry.2.json.sortKeys) := by
  refine ⟨_, Json.sortedMembers [("tee", .obj (repositoryOf root files))],
    Json.sortedMembers (repositoryOf root files), Json.sortKeys_obj _,
    Json.hasExactly_sortedMembers rfl, ?_, ?_,
    Json.hasExactly_sortedMembers rfl, ?_, Json.hasExactly_sortedMembers rfl,
    ?_, ?_⟩
  · rw [Json.get_sortedMembers]
    rfl
  · rw [Json.get_sortedMembers]
    rfl
  · rw [Json.get_sortedMembers]
    rfl
  · rw [Json.get_sortedMembers]
    rfl
  · rw [Json.get_sortedMembers]
    show some (Json.sortKeys (.arr _)) = _
    rw [Json.sortKeys_arr, List.map_map]
    rfl

theorem mem_mapM {α β : Type} {f : α → Except Error β} {as : List α}
    {bs : List β} (h : as.mapM f = .ok bs) {b : β} :
    b ∈ bs ↔ ∃ a ∈ as, f a = .ok b := by
  induction as generalizing bs with
  | nil =>
      injection h with h
      simp [← h]
  | cons a as ih =>
      rw [List.mapM_cons] at h
      obtain ⟨first, hfirst, h⟩ := bind_ok h
      obtain ⟨rest, hrest, h⟩ := bind_ok h
      injection h with h
      rw [← h, List.mem_cons, ih hrest, List.exists_mem_cons_iff, hfirst,
        Except.ok.injEq, eq_comm]

theorem exists_of_mapM {α β : Type} {f : α → Except Error β} {as : List α}
    {bs : List β} (h : as.mapM f = .ok bs) {a : α} (ha : a ∈ as) :
    ∃ b, f a = .ok b := by
  induction as generalizing bs with
  | nil => cases ha
  | cons first as ih =>
      rw [List.mapM_cons] at h
      obtain ⟨b, hb, h⟩ := bind_ok h
      obtain ⟨rest, hrest, h⟩ := bind_ok h
      rcases List.mem_cons.mp ha with rfl | ha
      · exact ⟨b, hb⟩
      · exact ih hrest ha

/-- A text with a colon in it. -/
theorem partition_colon {cs relative : List Char}
    (h : (cs.drop (cs.takeWhile (· != ':')).length).tail? = some relative) :
    cs = cs.takeWhile (· != ':') ++ ':' :: relative := by
  induction cs with
  | nil => cases h
  | cons c cs ih =>
      by_cases hc : c = ':'
      · rw [List.takeWhile_cons_of_neg (by simp [hc])] at h ⊢
        injection h with h
        rw [hc, ← h, List.nil_append]
      · rw [List.takeWhile_cons_of_pos (by simp [hc])] at h ⊢
        rw [List.cons_append, ← ih h]

theorem readInclude_ok {text : String} {found : String × String}
    (h : readInclude P text = .ok found) :
    ∃ names, Canonical names ∧ text = "tee:" ++ join names ∧
      found = ("tee", join names) := by
  rw [readInclude] at h
  obtain ⟨relative, hrelative, h⟩ := bind_ok h
  obtain ⟨_, hname, h⟩ := bind_ok h
  obtain ⟨path, hpath, h⟩ := bind_ok h
  injection h with h
  obtain ⟨names, hnames, _, hvalue, rfl⟩ := relativePath_ok P hpath
  injection hvalue with hvalue
  have hname := require_ok hname
  simp only [layout, List.map_cons, List.map_nil, List.contains_cons,
    List.contains_nil, Bool.or_false, beq_iff_eq] at hname
  have hchars := partition_colon (present_ok hrelative)
  have htee : text.toList.takeWhile (· != ':') = "tee".toList := by
    rw [← hname, String.toList_ofList]
  have hrest : relative = (join names).toList := by
    rw [← hvalue, String.toList_ofList]
  refine ⟨names, hnames, ?_, ?_⟩
  · apply String.toList_inj.mp
    rw [hchars, htee, hrest, String.toList_append]
    rfl
  · rw [← h, hname, str_names hnames.1]

theorem candidate_iff {raw : Bytes} {found : Option String}
    (h : candidate P t root raw = .ok found) {path : List Name}
    (hpath : Canonical path) :
    found = some (join path) ↔ decodeUtf8 raw = some (join path) ∧
      isCode ⟨"", path⟩ = true ∧ (pathExists t (root ++ path) ||
        isSymlink t (root ++ path)) = true := by
  rw [candidate] at h
  split at h
  · next hempty =>
      injection h with h
      have hraw : decodeUtf8 raw = some "" := by
        rw [List.isEmpty_iff.mp hempty]
        decide
      simp [← h, hraw, (join_ne_empty hpath.1).symm]
  · obtain ⟨relative, hrelative, h⟩ := bind_ok h
    obtain ⟨parsed, hparsed, h⟩ := bind_ok h
    obtain ⟨names, hnames, _, hvalue, rfl⟩ := relativePath_ok P hparsed
    injection hvalue with hvalue
    have hdecoded : decodeUtf8 raw = some (join names) := by
      cases hraw : decodeUtf8 raw with
      | none =>
          rw [hraw] at hrelative
          cases hrelative
      | some text =>
          rw [hraw] at hrelative
          injection hrelative with hrelative
          rw [← hvalue, ← hrelative]
    rw [hdecoded, Option.some.injEq]
    split at h
    · next hchosen =>
        injection h with h
        rw [Bool.and_eq_true] at hchosen
        rw [← h, hvalue, Option.some.injEq]
        constructor
        · intro hjoin
          rw [← join_inj hnames.1 hpath.1 hjoin]
          exact ⟨rfl, hchosen⟩
        · intro hboth
          exact hboth.1
    · next hchosen =>
        injection h with h
        rw [← h]
        constructor
        · intro hnone
          cases hnone
        · rintro ⟨hjoin, hcode, hthere⟩
          rw [← join_inj hnames.1 hpath.1 hjoin] at hcode hthere
          exact absurd (Bool.and_eq_true_iff.mpr ⟨hcode, hthere⟩) hchosen

/-- The files a plan is for: those named on the command line, and those that
git lists, that look like code and that are there. -/
def Selected (t : Tree) (root : AbsPath) (listing : Bytes)
    (includes : List String) (path : List Name) : Prop :=
  Canonical path ∧ ("tee:" ++ join path ∈ includes ∨
    ∃ raw ∈ listing.splitOn 0, decodeUtf8 raw = some (join path) ∧
      isCode ⟨"", path⟩ = true ∧ (pathExists t (root ++ path) ||
        isSymlink t (root ++ path)) = true)

/-- What a plan has found. -/
structure Planned (P : Python) (t : Tree) (root : AbsPath) (listing : Bytes)
    (includes : List String) (files : List Listed) : Prop where
  valid : ∀ f ∈ files, f.Valid
  found : ∀ f ∈ files, Found P t root f
  unique : (files.map Listed.path).Nodup
  selected : ∀ path, path ∈ files.map Listed.path ↔
    Selected t root listing includes path

/-- What was named, by its text. -/
theorem mem_named {includes : List String} {explicit : List (String × String)}
    (h : includes.mapM (readInclude P) = .ok explicit) (path : List Name) :
    join path ∈ (explicit.filter (·.1 == "tee")).map Prod.snd ↔
      "tee:" ++ join path ∈ includes := by
  constructor
  · intro hmem
    obtain ⟨pair, hpair, hsame⟩ := List.mem_map.mp hmem
    obtain ⟨text, htext, hread⟩ :=
      (mem_mapM h).mp (List.mem_filter.mp hpair).1
    obtain ⟨names, _, hinclude, hfound⟩ := readInclude_ok hread
    rw [hfound] at hsame
    rw [← hsame, ← hinclude]
    exact htext
  · intro hmem
    obtain ⟨pair, hread⟩ := exists_of_mapM h hmem
    obtain ⟨names, _, hinclude, hfound⟩ := readInclude_ok hread
    have hsame : join path = join names := by
      apply String.toList_inj.mp
      have hchars := congrArg String.toList hinclude
      rw [String.toList_append, String.toList_append] at hchars
      exact List.append_cancel_left hchars
    refine List.mem_map.mpr ⟨pair, List.mem_filter.mpr
      ⟨(mem_mapM h).mpr ⟨_, hmem, hread⟩, ?_⟩, ?_⟩
    · rw [hfound]
      rfl
    · rw [hfound, hsame]

/-- What git listed and the loop kept. -/
theorem mem_listed {raws : List Bytes} {found : List (Option String)}
    (h : raws.mapM (candidate P t root) = .ok found) {path : List Name}
    (hpath : Canonical path) :
    join path ∈ found.reduceOption ↔
      ∃ raw ∈ raws, decodeUtf8 raw = some (join path) ∧
        isCode ⟨"", path⟩ = true ∧ (pathExists t (root ++ path) ||
          isSymlink t (root ++ path)) = true := by
  rw [List.reduceOption_mem_iff, mem_mapM h]
  constructor
  · rintro ⟨raw, hraw, hkept⟩
    exact ⟨raw, hraw, (candidate_iff hkept hpath).mp rfl⟩
  · rintro ⟨raw, hraw, hchosen⟩
    obtain ⟨kept, hkept⟩ := exists_of_mapM h hraw
    refine ⟨raw, hraw, ?_⟩
    rw [hkept, (candidate_iff hkept hpath).mpr hchosen]

theorem planSources_ok (hlinks : P.ResolvesLinks)
    {lsFiles : Tree → AbsPath → Except String Bytes}
    {supplied : String} {includes : List String} {plan : Json}
    (h : planSources P lsFiles t [("tee", supplied)] includes = .ok plan) :
    ∃ root listing files, P.resolve t supplied = some root ∧
      lsFiles t root = .ok listing ∧
      Planned P t root listing includes files ∧ plan = planOf root files := by
  rw [planSources] at h
  obtain ⟨explicit, hexplicit, h⟩ := bind_ok h
  obtain ⟨repositories, hrepositories, h⟩ := bind_ok h
  injection h with h
  rw [List.mapM_cons] at hrepositories
  obtain ⟨repository, hrepository, hrepositories⟩ := bind_ok hrepositories
  injection hrepositories with hrepositories
  rw [planRepository] at hrepository
  obtain ⟨root, hroot, hrepository⟩ := bind_ok hrepository
  obtain ⟨listing, hlisting, hrepository⟩ := bind_ok hrepository
  obtain ⟨found, hfound, hrepository⟩ := bind_ok hrepository
  obtain ⟨entries, hentries, hrepository⟩ := bind_ok hrepository
  injection hrepository with hrepository
  obtain ⟨files, hall, hnames, rfl⟩ :=
    mapM_entryFor_ok (hlinks _ _ _ (resolveStrict_ok hroot).1) hentries
  refine ⟨root, listing, files, (resolveStrict_ok hroot).1,
    outside_ok hlisting, ⟨fun f hf => (hall f hf).1, fun f hf => (hall f hf).2,
      ?_, ?_⟩, ?_⟩
  · have hnodup := nodup_sortedSet
      ((explicit.filter (·.1 == "tee")).map Prod.snd ++ found.reduceOption)
    have hjoins : files.map (fun f => join f.path)
        = (files.map Listed.path).map join := by
      rw [List.map_map]
      rfl
    rw [hnames, hjoins] at hnodup
    exact hnodup.of_map join
  · intro path
    have hmem : path ∈ files.map Listed.path ↔ Canonical path ∧
        join path ∈ sortedSet ((explicit.filter (·.1 == "tee")).map Prod.snd ++
          found.reduceOption) := by
      rw [hnames]
      constructor
      · intro hpath
        obtain ⟨f, hf, rfl⟩ := List.mem_map.mp hpath
        exact ⟨(hall f hf).1.1, List.mem_map.mpr ⟨f, hf, rfl⟩⟩
      · rintro ⟨hpath, hjoin⟩
        obtain ⟨f, hf, hsame⟩ := List.mem_map.mp hjoin
        rw [← join_inj (hall f hf).1.1.1 hpath.1 hsame]
        exact List.mem_map_of_mem hf
    rw [hmem, mem_sortedSet, List.mem_append, mem_named hexplicit, Selected]
    refine and_congr_right fun hpath => or_congr_right ?_
    exact mem_listed hfound hpath
  · rw [← h, ← hrepositories, ← hrepository, List.map_map]
    rfl

end

/-! ## From the plan to the snapshot -/

/-- A path that was resolved stays, wherever it is a directory. -/
def Settled (P : Python) : Prop :=
  ∀ t u text path, P.resolve t text = some path →
    u.node path = some .dir → P.resolve u (pathStr path) = some path

section

variable {P : Python} {w w' : World} {destination root : AbsPath}
  {files : List Listed}

theorem files_unique {fs gs : List Listed} {items : List Json}
    (hf : List.Forall₂ Listed.WrittenAs fs items)
    (hg : List.Forall₂ Listed.WrittenAs gs items)
    (hfs : ∀ f ∈ fs, f.path ≠ []) (hgs : ∀ g ∈ gs, g.path ≠ []) :
    fs = gs := by
  induction hf generalizing gs with
  | nil =>
      cases hg
      rfl
  | @cons f item fs items hfirst _ ih =>
      cases hg with
      | @cons g _ gs _ hother hrest =>
          rw [Listed.eq_of_writtenAs hfirst hother
            (hfs f List.mem_cons_self) (hgs g List.mem_cons_self),
            ih hrest (fun f hf => hfs f (List.mem_cons_of_mem _ hf))
              fun g hg => hgs g (List.mem_cons_of_mem _ hg)]

theorem IsPlan.selects {plan : Json} {rootText text : String}
    {items items' : List Json} {inventory : Inventory}
    (h : IsPlan plan rootText items)
    (hselects : Selects plan text items' inventory) :
    text = rootText ∧ items' = items ∧
      List.Forall₂ Listed.WrittenAs inventory.files items := by
  obtain ⟨members, repositories, repository, rfl, _, _, hrepositories, _,
    htee, _, hroot, hfiles⟩ := h.shape
  obtain ⟨members', repositories', repository', hsame, hrepositories', htee',
    hroot', hfiles', hlisted⟩ := hselects
  injection hsame with hsame
  rw [← hsame, hrepositories] at hrepositories'
  injection hrepositories' with hrepositories'
  injection hrepositories' with hrepositories'
  rw [← hrepositories', htee] at htee'
  injection htee' with htee'
  injection htee' with htee'
  rw [← htee', hroot] at hroot'
  rw [← htee', hfiles] at hfiles'
  injection hroot' with hroot'
  injection hroot' with hroot'
  injection hfiles' with hfiles'
  injection hfiles' with hfiles'
  exact ⟨hroot'.symm, hfiles'.symm, hfiles' ▸ hlisted⟩

/-- The copy of a file that is listed. -/
theorem Ran.copy {rootText : String} {items : List Json}
    {inventory : Inventory} {fresh begun : Tree} {filled : World}
    (h : Ran P w w' destination root rootText items inventory fresh begun
      filled) {f : Listed} (hf : f ∈ inventory.files) :
    w'.tree.node (destination ++ [sapioTee] ++ f.path)
        = w.tree.node (root ++ f.path) ∧
      ¬[manifestName] <+: f.path := by
  obtain ⟨data, hcopy, hsource, _⟩ := h.copied.files f hf
  have hother : destination ++ [sapioTee] ++ f.path
      ≠ destination ++ [sapioTee] ++ [manifestName] :=
    fun hsame => h.unreserved f hf (List.append_cancel_left hsame)
  have hnode : w'.tree.node (destination ++ [sapioTee] ++ f.path)
      = some (.leaf (.file data f.executable)) := by
    rw [h.tree, if_neg hother]
    exact hcopy
  refine ⟨?_, ?_⟩
  · rw [hnode, ← h.source, ← hsource]
  · intro hlead
    have hmanifest := h.tree (destination ++ [sapioTee] ++ [manifestName])
    rw [if_pos rfl] at hmanifest
    exact h.unreserved f hf (eq_of_leaves hmanifest hnode hlead).symm

variable {t : Tree} {supplied text : String} {listing : Bytes}
  {includes : List String}

/-- A run on a plan that was read back. -/
theorem Planned.ran (h : Planned P t root listing includes files)
    (hlinks : P.ResolvesLinks) (hsettled : Settled P)
    (hroot : P.resolve t supplied = some root)
    (hsame : ∀ f ∈ files,
      w.tree.node (root ++ f.path) = t.node (root ++ f.path))
    (hrun : createSnapshots P w (planOf root files).sortKeys text
      = .ok (destination, w')) :
    ∃ items inventory fresh begun filled, inventory.files = files ∧
      List.Forall₂ Listed.WrittenAs inventory.files items ∧
      Ran P w w' destination root (pathStr root) items inventory fresh begun
        filled := by
  obtain ⟨rootText, other, items, inventory, fresh, begun, filled, hselects,
    hran⟩ := createSnapshots_ok hlinks hrun
  obtain ⟨rfl, rfl, hlisted⟩ := (isPlan_planOf root files).selects hselects
  have hfiles : inventory.files = files :=
    files_unique hlisted (forall₂_json files)
      (fun f hf => (inventory.canonical f hf).1)
      fun f hf => (h.valid f hf).1.1
  have hfound : ∀ f ∈ inventory.files, Found P w.tree root f := by
    intro f hf
    rw [hfiles] at hf
    exact (h.found f hf).of_node (hsame f hf)
  have hdir : fresh.node root = some .dir := by
    rw [hran.fresh_node]
    split
    · rfl
    · exact root_dir hfound
  have hresolved := hran.resolved
  rw [hsettled t fresh supplied root hroot hdir] at hresolved
  injection hresolved with hresolved
  rw [← hresolved] at hran
  exact ⟨_, inventory, fresh, begun, filled, hfiles, hlisted, hran⟩

/-- When a plan that was read back can be carried out. -/
theorem Planned.creates_iff (h : Planned P t root listing includes files)
    (hlinks : P.ResolvesLinks) (hsettled : Settled P)
    (hroot : P.resolve t supplied = some root)
    (hsame : ∀ f ∈ files,
      w.tree.node (root ++ f.path) = t.node (root ++ f.path))
    (htext : P.resolve w.tree text = some destination) :
    (∃ w', createSnapshots P w (planOf root files).sortKeys text
        = .ok (destination, w')) ↔
      [cargoToml] ∈ files.map Listed.path ∧
      (∀ path ∈ files.map Listed.path, ¬[manifestName] <+: path) ∧
      Fresh w.tree destination ∧ ¬root <+: destination := by
  constructor
  · rintro ⟨w', hrun⟩
    obtain ⟨items, inventory, fresh, begun, filled, rfl, _, hran⟩ :=
      h.ran hlinks hsettled hroot hsame hrun
    obtain ⟨hne, hparent, hfree, _⟩ :=
      mkdir_ok hran.way.dropLast hran.made
    refine ⟨inventory.cargo, ?_, ⟨hne, hparent, hfree⟩, ?_⟩
    · intro path hpath
      obtain ⟨f, hf, rfl⟩ := List.mem_map.mp hpath
      exact (hran.copy hf).2
    · rintro ⟨rest, rfl⟩
      exact hran.apart rest (List.prefix_refl _)
  · rintro ⟨hcargo, hmanifest, hfresh, hout⟩
    let inventory : Inventory := ⟨files, fun f hf => (h.valid f hf).1,
      h.unique, fun f hf => (h.valid f hf).2.2, hcargo⟩
    have hfree : inventory.Unreserved := fun f hf => (h.valid f hf).2.1
    have hfound : ∀ f ∈ inventory.files, Found P w.tree root f :=
      fun f hf => (h.found f hf).of_node (hsame f hf)
    exact createSnapshots_of (isPlan_planOf root files)
      (show List.Forall₂ Listed.WrittenAs inventory.files _ from
        forall₂_json files) hfree htext hfresh hout
      (fun u hu => hsettled t u supplied root hroot hu) hfound
      fun f hf => hmanifest f.path (List.mem_map_of_mem hf)

end

/-- A plan lists the selected files and nothing else, each with its digest
and its mode, and is read back as it was written but for the order of the
members. However the rest of the world has changed, as long as these files
have not, it can be carried out exactly when it lists `Cargo.toml`, nothing
lies in a directory of the manifest's name, and the destination is a new
directory outside the source; and what is then created verifies and has the
bytes and modes the plan was made from. -/
theorem plan_creates (P : Python) (hlinks : P.ResolvesLinks)
    (hsettled : Settled P) (lsFiles : Tree → AbsPath → Except String Bytes)
    (t : Tree) (supplied : String) (includes : List String) (plan : Json)
    (hplan : planSources P lsFiles t [("tee", supplied)] includes
      = .ok plan) :
    ∃ (root : AbsPath) (listing : Bytes) (files : List Listed),
      P.resolve t supplied = some root ∧ lsFiles t root = .ok listing ∧
      plan = planOf root files ∧
      Planned P t root listing includes files ∧
      loads P (dumps P plan) = some plan.sortKeys ∧
      ∀ (w : World) (text : String) (destination : AbsPath),
        (∀ f ∈ files,
          w.tree.node (root ++ f.path) = t.node (root ++ f.path)) →
        P.resolve w.tree text = some destination →
        ((∃ w', createSnapshots P w plan.sortKeys text
            = .ok (destination, w')) ↔
          [cargoToml] ∈ files.map Listed.path ∧
            (∀ f ∈ files, ¬[manifestName] <+: f.path) ∧
            Fresh w.tree destination ∧ ¬root <+: destination) ∧
        ∀ w', createSnapshots P w plan.sortKeys text = .ok (destination, w') →
          (∀ name, P.resolve w'.tree name
              = some (destination ++ [sapioTee]) →
            verifySnapshot P w'.tree name
              = .ok (destination ++ [sapioTee])) ∧
          ∀ f ∈ files, w'.tree.node (destination ++ [sapioTee] ++ f.path)
            = t.node (root ++ f.path) := by
  obtain ⟨root, listing, files, hroot, hlisting, hplanned, rfl⟩ :=
    planSources_ok hlinks hplan
  refine ⟨root, listing, files, hroot, hlisting, rfl, hplanned,
    loads_dumps P (plain_planOf root files), ?_⟩
  intro w text destination hsame htext
  have hiff := hplanned.creates_iff hlinks hsettled hroot hsame htext
  rw [List.forall_mem_map] at hiff
  refine ⟨hiff, ?_⟩
  intro w' hrun
  obtain ⟨items, inventory, fresh, begun, filled, rfl, hlisted, hran⟩ :=
    hplanned.ran hlinks hsettled hroot hsame hrun
  refine ⟨fun name hname => hran.verified hlisted hname, ?_⟩
  intro f hf
  rw [(hran.copy hf).1]
  exact hsame f hf

/-! ## A small plan -/

theorem tail_pathStr (path : AbsPath) :
    (purePosixPath (pathStr path)).tail = path := by
  have hchars : (pathStr path).toList = '/' :: (join path).toList := by
    rw [pathStr, String.toList_append]
    rfl
  have hsplit : ('/' :: (join path).toList).splitOn '/'
      = [] :: (join path).toList.splitOn '/' := by
    simp [List.splitOn, List.splitOnP_cons_eq_if_modifyHead]
  show ((pathStr path).toList.splitOn '/').filterMap component = path
  rw [hchars, hsplit, List.filterMap_cons_none rfl]
  by_cases hnil : path = []
  · rw [hnil]
    decide
  · exact tail_join hnil

namespace Small

theorem settled : Settled python := by
  intro t u text path _ hdir
  exact resolve_some.mpr ⟨(tail_pathStr path).symm,
    unlinked_of_node hdir (by simp)⟩

/-- What git lists: a file of code, a link, and a file that was deleted. -/
def listing : Bytes :=
  ascii "Cargo.toml" ++ 0 :: ascii "notes" ++ 0 :: ascii "gone.rs" ++ [0]

def lsFiles (_ : Tree) (_ : AbsPath) : Except String Bytes := .ok listing

def includes : List String := ["tee:scripts/run.sh"]

theorem planned :
    (planSources python lsFiles tree [("tee", "/src")]
      includes).toOption.isSome = true := by
  decide +kernel

theorem selected_cargo :
    Selected tree [src] listing includes [cargoToml] := by
  refine ⟨⟨by simp, ?_⟩, .inr ⟨ascii "Cargo.toml", ?_⟩⟩
  · simp only [List.mem_singleton, forall_eq]
    decide
  · decide +kernel

/-- The texts of what may be selected. -/
def texts : List String :=
  ["scripts/run.sh", "Cargo.toml", "notes", "gone.rs", ""]

theorem selected_texts {path : List Name}
    (h : Selected tree [src] listing includes path) :
    ¬[manifestName] <+: path := by
  have hraws : ((listing.splitOn 0).all fun raw =>
      (decodeUtf8 raw).all fun s => texts.contains s) = true := by
    decide +kernel
  have htails : (texts.all fun s =>
      !([manifestName].isPrefixOf (purePosixPath s).tail)) = true := by
    decide +kernel
  obtain ⟨hpath, hselected⟩ := h
  have hmem : join path ∈ texts := by
    rcases hselected with hnamed | ⟨raw, hraw, hdecode, -⟩
    · have hsame := congrArg String.toList (List.mem_singleton.mp hnamed)
      have hfull : "tee:scripts/run.sh".toList
          = "tee:".toList ++ "scripts/run.sh".toList := by decide
      rw [String.toList_append, hfull] at hsame
      rw [String.toList_inj.mp (List.append_cancel_left hsame)]
      exact List.mem_cons_self
    · have hall := List.all_eq_true.mp hraws raw hraw
      rw [hdecode] at hall
      exact List.contains_iff_mem.mp hall
  have htail := List.all_eq_true.mp htails _ hmem
  rw [tail_join hpath.1, Bool.not_eq_true', ← Bool.not_eq_true,
    List.isPrefixOf_iff_prefix] at htail
  exact htail

theorem fresh_out : Fresh tree [out] :=
  ⟨by decide, by decide +kernel, by decide +kernel⟩

end Small

/-- A plan that was made, read back and carried out. -/
theorem plan_creates_small :
    ∃ plan read w', planSources Small.python Small.lsFiles Small.tree
        [("tee", "/src")] Small.includes = .ok plan ∧
      loads Small.python (dumps Small.python plan) = some read ∧
      createSnapshots Small.python ⟨Small.tree, []⟩ read "/out"
        = .ok ([Small.out], w') ∧
      verifySnapshot Small.python w'.tree "/out/sapio_tee"
        = .ok [Small.out, sapioTee] := by
  have hplanned := Small.planned
  cases hplan : planSources Small.python Small.lsFiles Small.tree
      [("tee", "/src")] Small.includes with
  | error e =>
      rw [hplan] at hplanned
      cases hplanned
  | ok plan =>
      obtain ⟨root, listing, files, hroot, hlisting, -, hfiles, hread,
        hruns⟩ := plan_creates Small.python Small.resolvesLinks Small.settled
          Small.lsFiles Small.tree "/src" Small.includes plan hplan
      have hsrc : Small.python.resolve Small.tree "/src"
          = some [Small.src] := by
        decide +kernel
      rw [hsrc] at hroot
      cases hroot
      cases hlisting
      have hout : Small.python.resolve Small.tree "/out"
          = some [Small.out] := by
        decide +kernel
      obtain ⟨hiff, hrun⟩ :=
        hruns ⟨Small.tree, []⟩ "/out" [Small.out] (fun _ _ => rfl) hout
      have hcargo := (hfiles.selected _).mpr Small.selected_cargo
      obtain ⟨w', hw'⟩ := hiff.mpr
        ⟨hcargo, fun f hf => Small.selected_texts
            ((hfiles.selected _).mp (List.mem_map_of_mem hf)),
          Small.fresh_out, by decide +kernel⟩
      obtain ⟨hverified, hcopies⟩ := hrun w' hw'
      obtain ⟨f, hf, hpath⟩ := List.mem_map.mp hcargo
      have hcopy := hcopies f hf
      obtain ⟨data, hfile, -⟩ := hfiles.found f hf
      rw [hfile, hpath] at hcopy
      have hname : Small.python.resolve w'.tree "/out/sapio_tee"
          = some [Small.out, sapioTee] :=
        Small.resolve_some.mpr ⟨by decide +kernel,
          unlinked_of_node (FileTree.node_parent hcopy) (by simp)⟩
      exact ⟨plan, _, w', rfl, hread, hw', hverified _ hname⟩

end SapioTee.Snapshot
