import SapioTee.Proofs.Inventory

/-!
# A verified snapshot is its inventory

`verify_snapshot` lists what is there, compares the names with the manifest
and hashes every listed file. Nothing in that says at once that the tree is
the one the manifest describes: the directories are checked against the
parents of listed paths, the files as a set of texts, and the contents by
name, after the set was found equal. `Inventory.Matches` is the description,
and the two agree because texts and canonical paths do.
-/

namespace SapioTee.Snapshot

open Lib

/-- A regular file stands at the path. -/
def IsFile (t : Tree) (path : AbsPath) : Prop :=
  ∃ data executable, t.node path = some (.leaf (.file data executable))

/-- The tree under a path is the inventory and its manifest. -/
structure Inventory.Matches (P : Python) (inventory : Inventory) (t : Tree)
    (snapshot : AbsPath) : Prop where
  files : ∀ path, IsFile t (snapshot ++ path) ∧ path ≠ [manifestName] ↔
    path ∈ inventory.files.map Listed.path
  contents : ∀ f ∈ inventory.files, ∃ data,
    t.node (snapshot ++ f.path) = some (.leaf (.file data f.executable)) ∧
      digest P data = f.sha256
  dirs : ∀ path, path ≠ [] → t.node (snapshot ++ path) = some .dir →
    ∃ f ∈ inventory.files, path <+: f.path ∧ path ≠ f.path
  others : ∀ path node, path ≠ [] → t.node (snapshot ++ path) = some node →
    node = .dir ∨ IsFile t (snapshot ++ path)

section

variable (P : Python)

/-! ## Directories -/

theorem mem_parents {names path : List Name} (hpath : path ≠ []) :
    join path ∈ (((⟨"", names⟩ : PurePosixPath).parents.map
        PurePosixPath.str).filter (· != ".")) ↔
      path <+: names ∧ path ≠ names := by
  rw [List.mem_filter, List.mem_map]
  refine ⟨?_, ?_⟩
  · intro h
    obtain ⟨⟨parent, hparent, hstr⟩, -⟩ := h
    obtain ⟨i, hi, rfl⟩ := List.mem_map.mp hparent
    have hi : i < names.length := List.mem_range.mp (List.mem_reverse.mp hi)
    have htake : names.take i = path := by
      by_cases hnil : names.take i = []
      · have hdot : PurePosixPath.str ⟨"", names.take i⟩ = "." :=
          if_pos ⟨rfl, hnil⟩
        exact absurd (hstr.symm.trans hdot) (join_ne_dot hpath)
      · exact join_inj hnil hpath ((str_names hnil).symm.trans hstr)
    rw [← htake]
    have htaken : names.take i <+: names := List.take_prefix i names
    refine ⟨htaken, ?_⟩
    intro hwhole
    have hlen := congrArg List.length hwhole
    rw [List.length_take] at hlen
    omega
  · intro h
    obtain ⟨hlead, hne⟩ := h
    have hlen : path.length < names.length := by
      rcases Nat.lt_or_ge path.length names.length with hlt | hge
      · exact hlt
      · exact absurd (hlead.eq_of_length_le hge) hne
    have htake : names.take path.length = path :=
      (List.prefix_iff_eq_take.mp hlead).symm
    refine ⟨⟨⟨"", path⟩, ?_, str_names hpath⟩, ?_⟩
    · rw [PurePosixPath.parents, List.mem_map]
      refine ⟨path.length, ?_, ?_⟩
      · rw [List.mem_reverse, List.mem_range]
        exact hlen
      · rw [htake]
    · exact bne_iff_ne.mpr (join_ne_dot hpath)

theorem mem_expectedDirs {inventory : Inventory} {path : List Name}
    (hpath : path ≠ []) :
    join path ∈ expectedDirs inventory.entries ↔
      ∃ f ∈ inventory.files, path <+: f.path ∧ path ≠ f.path := by
  rw [expectedDirs, List.mem_flatMap]
  refine ⟨?_, ?_⟩
  · intro h
    obtain ⟨entry, hentry, hmem⟩ := h
    obtain ⟨f, hf, rfl⟩ := List.mem_map.mp hentry
    rw [Listed.entry, purePosixPath_join (inventory.canonical f hf).1] at hmem
    exact ⟨f, hf, (mem_parents hpath).mp hmem⟩
  · intro h
    obtain ⟨f, hf, hproper⟩ := h
    refine ⟨f.entry, List.mem_map_of_mem hf, ?_⟩
    rw [Listed.entry, purePosixPath_join (inventory.canonical f hf).1]
    exact (mem_parents hpath).mpr hproper

/-! ## The listing -/

/-- What the loop lets through. -/
def Admissible (dirs : List String) (found : List Name × Node Leaf) : Prop :=
  (found.2 = .dir ∧ join found.1 ∈ dirs) ∨
    ∃ data executable, found.2 = .leaf (.file data executable)

theorem scan_ok {dirs : List String} {snapshot : AbsPath}
    {actual actual' : List String} {found : List Name × Node Leaf}
    (h : scan dirs snapshot actual found = .ok actual') :
    Admissible dirs found ∧ ∀ name, name ∈ actual' ↔ name ∈ actual ∨
      (∃ data executable, found.2 = .leaf (.file data executable)) ∧
        name = join found.1 := by
  rw [scan] at h
  split at h
  · next hdir =>
      obtain ⟨_, hmem, h⟩ := bind_ok h
      injection h with h
      refine ⟨.inl ⟨hdir, List.contains_iff_mem.mp (require_ok hmem)⟩, ?_⟩
      intro name
      rw [← h]
      refine ⟨.inl, ?_⟩
      intro hname
      rcases hname with hname | ⟨⟨data, executable, hfile⟩, _⟩
      · exact hname
      · rw [hdir] at hfile
        cases hfile
  · next data executable hfile =>
      injection h with h
      refine ⟨.inr ⟨data, executable, hfile⟩, ?_⟩
      intro name
      rw [← h, List.mem_cons]
      refine ⟨?_, ?_⟩
      · intro hname
        rcases hname with hname | hname
        · exact .inr ⟨⟨data, executable, hfile⟩, hname⟩
        · exact .inl hname
      · intro hname
        rcases hname with hname | ⟨_, hname⟩
        · exact .inr hname
        · exact .inl hname
  · cases h

theorem scan_of {dirs : List String} {snapshot : AbsPath}
    {actual : List String} {found : List Name × Node Leaf}
    (h : Admissible dirs found) :
    ∃ actual', scan dirs snapshot actual found = .ok actual' := by
  rcases h with ⟨hdir, hmem⟩ | ⟨data, executable, hfile⟩
  · refine ⟨actual, ?_⟩
    rw [scan, hdir]
    simp only [List.contains_iff_mem.mpr hmem, require_true, ok_bind]
    rfl
  · refine ⟨join found.1 :: actual, ?_⟩
    rw [scan, hfile]

/-- The whole listing: everything was let through, and the files are what
was gathered. -/
theorem foldlM_scan_ok {dirs : List String} {snapshot : AbsPath}
    {found : List (List Name × Node Leaf)} {actual actual' : List String}
    (h : found.foldlM (scan dirs snapshot) actual = .ok actual') :
    (∀ e ∈ found, Admissible dirs e) ∧
      ∀ name, name ∈ actual' ↔ name ∈ actual ∨ ∃ e ∈ found,
        (∃ data executable, e.2 = .leaf (.file data executable)) ∧
          name = join e.1 := by
  induction found generalizing actual with
  | nil =>
      injection h with h
      rw [← h]
      refine ⟨?_, ?_⟩
      · intro e he
        cases he
      · intro name
        refine ⟨.inl, ?_⟩
        intro hname
        rcases hname with hname | ⟨e, he, _⟩
        · exact hname
        · cases he
  | cons e found ih =>
      rw [List.foldlM_cons] at h
      obtain ⟨next, hnext, h⟩ := bind_ok h
      obtain ⟨hadmissible, hmem⟩ := scan_ok hnext
      obtain ⟨hall, hmems⟩ := ih h
      refine ⟨?_, ?_⟩
      · intro x hx
        rcases List.mem_cons.mp hx with rfl | hx
        · exact hadmissible
        · exact hall x hx
      · intro name
        rw [hmems, hmem]
        simp only [List.mem_cons, exists_eq_or_imp, or_assoc]

theorem foldlM_scan_of {dirs : List String} {snapshot : AbsPath}
    {found : List (List Name × Node Leaf)} {actual : List String}
    (h : ∀ e ∈ found, Admissible dirs e) :
    ∃ actual', found.foldlM (scan dirs snapshot) actual = .ok actual' := by
  induction found generalizing actual with
  | nil => exact ⟨actual, rfl⟩
  | cons e found ih =>
      obtain ⟨next, hnext⟩ :=
        @scan_of dirs snapshot actual e (h e List.mem_cons_self)
      obtain ⟨actual', hrest⟩ :=
        @ih next fun x hx => h x (List.mem_cons_of_mem _ hx)
      refine ⟨actual', ?_⟩
      rw [List.foldlM_cons, hnext, ok_bind]
      exact hrest

theorem sameSet_iff {xs ys : List String} :
    sameSet xs ys = true ↔ ∀ x, x ∈ xs ↔ x ∈ ys := by
  rw [sameSet, Bool.and_eq_true, List.all_eq_true, List.all_eq_true]
  refine ⟨?_, ?_⟩
  · intro h x
    refine ⟨?_, ?_⟩
    · intro hx
      exact List.contains_iff_mem.mp (h.1 x hx)
    · intro hx
      exact List.contains_iff_mem.mp (h.2 x hx)
  · intro h
    refine ⟨?_, ?_⟩
    · intro x hx
      exact List.contains_iff_mem.mpr ((h x).mp hx)
    · intro x hx
      exact List.contains_iff_mem.mpr ((h x).mpr hx)

/-! ## The contents -/

theorem checkEntry_iff {t : Tree} {snapshot : AbsPath} {f : Listed}
    (hroot : Unlinked t snapshot) (hcanonical : Canonical f.path)
    (hfree : f.path ≠ [manifestName]) :
    checkEntry P t snapshot f.entry = .ok () ↔ ∃ data,
      t.node (snapshot ++ f.path) = some (.leaf (.file data f.executable)) ∧
        digest P data = f.sha256 := by
  refine ⟨?_, ?_⟩
  · intro h
    rw [checkEntry] at h
    obtain ⟨actual, hactual, h⟩ := bind_ok h
    rw [entryFor] at hactual
    obtain ⟨opened, hopened, hactual⟩ := bind_ok hactual
    injection hactual with hactual
    obtain ⟨names, hnames, _, hrelative, _, hnode⟩ :=
      fileContent_ok P hroot hopened
    have hpath : f.path = names := join_inj hcanonical.1 hnames.1 hrelative
    have hsame := eq_of_beq (require_ok h)
    rw [← hactual] at hsame
    injection hsame with _ hdigest hexec
    rw [← hpath, hexec] at hnode
    exact ⟨opened.data, hnode, hdigest⟩
  · intro h
    obtain ⟨data, hnode, hdigest⟩ := h
    rw [checkEntry, entryFor, Listed.entry,
      fileContent_join P hcanonical hfree hnode, ok_bind]
    simp only [hdigest]
    show require (_ == _) _ = _
    rw [beq_self_eq_true]
    rfl

/-! ## The snapshot -/

theorem provenance_file {t : Tree} {snapshot : AbsPath} {text : Bytes}
    {executable : Bool}
    (h : t.node (snapshot ++ [manifestName])
      = some (.leaf (.file text executable))) :
    provenance t snapshot = .ok text := by
  rw [provenance, lstat_of h, ok_bind]
  simp only [readFile_of h, ok_bind]
  rfl

theorem resolveStrict_some {t : Tree} {name : String} {path : AbsPath}
    {node : Node Leaf} (hresolve : P.resolve t name = some path)
    (hnode : t.node path = some node) :
    resolveStrict P t name = .ok path := by
  rw [resolveStrict, hresolve]
  simp only [hnode, Option.isSome_some, if_true]

/-- What the listing found is what the inventory says, as far as names and
kinds go. -/
theorem Inventory.Matches.admissible {inventory : Inventory} {t : Tree}
    {snapshot : AbsPath} (h : inventory.Matches P t snapshot) :
    ∀ e ∈ t.below snapshot, Admissible (expectedDirs inventory.entries) e := by
  intro e he
  obtain ⟨path, node⟩ := e
  obtain ⟨hne, hnode⟩ := FileTree.mem_below.mp he
  rcases h.others path node hne hnode with rfl | ⟨data, executable, hfile⟩
  · exact .inl ⟨rfl, (mem_expectedDirs hne).mpr (h.dirs path hne hnode)⟩
  · rw [hnode] at hfile
    injection hfile with hfile
    exact .inr ⟨data, executable, hfile⟩

/-- The texts of the files in a listing. -/
theorem mem_files {t : Tree} {snapshot : AbsPath} {name : String} :
    (∃ e ∈ t.below snapshot,
        (∃ data executable, e.2 = .leaf (.file data executable)) ∧
          name = join e.1) ↔
      ∃ path, path ≠ [] ∧ IsFile t (snapshot ++ path) ∧ name = join path := by
  refine ⟨?_, ?_⟩
  · intro h
    obtain ⟨⟨path, node⟩, he, ⟨data, executable, hfile⟩, hname⟩ := h
    obtain ⟨hne, hnode⟩ := FileTree.mem_below.mp he
    exact ⟨path, hne, ⟨data, executable, hfile ▸ hnode⟩, hname⟩
  · intro h
    obtain ⟨path, hne, ⟨data, executable, hnode⟩, hname⟩ := h
    exact ⟨(path, _), FileTree.mem_below.mpr ⟨hne, hnode⟩,
      ⟨data, executable, rfl⟩, hname⟩

theorem join_manifestName : join [manifestName] = manifestFile := by decide

/-- The set comparison, as a statement about paths. -/
theorem sameFiles_iff {inventory : Inventory} {t : Tree} {snapshot : AbsPath}
    (hroot : t.node snapshot = some .dir)
    (hmanifest : IsFile t (snapshot ++ [manifestName]))
    (hfree : inventory.Unreserved) {actual : List String}
    (hactual : ∀ name, name ∈ actual ↔ ∃ path, path ≠ [] ∧
      IsFile t (snapshot ++ path) ∧ name = join path) :
    sameSet actual (manifestFile :: inventory.entries.map Prod.fst) = true ↔
      ∀ path, IsFile t (snapshot ++ path) ∧ path ≠ [manifestName] ↔
        path ∈ inventory.files.map Listed.path := by
  rw [sameSet_iff, Inventory.entries, map_entry]
  refine ⟨?_, ?_⟩
  · intro h path
    refine ⟨?_, ?_⟩
    · intro hboth
      obtain ⟨hfile, hother⟩ := hboth
      have hne : path ≠ [] := by
        intro hnil
        obtain ⟨data, executable, hnode⟩ := hfile
        rw [hnil, List.append_nil, hroot] at hnode
        cases hnode
      have hlisted := (h (join path)).mp
        ((hactual _).mpr ⟨path, hne, hfile, rfl⟩)
      rcases List.mem_cons.mp hlisted with hsame | hlisted
      · rw [← join_manifestName] at hsame
        exact absurd (join_inj hne (List.cons_ne_nil _ _) hsame) hother
      · obtain ⟨path', hpath', hjoin⟩ := List.mem_map.mp hlisted
        obtain ⟨f, hf, rfl⟩ := List.mem_map.mp hpath'
        rw [← join_inj (inventory.canonical f hf).1 hne hjoin]
        exact hpath'
    · intro hlisted
      obtain ⟨f, hf, rfl⟩ := List.mem_map.mp hlisted
      refine ⟨?_, hfree f hf⟩
      have hin := (h (join f.path)).mpr
        (List.mem_cons_of_mem _ (List.mem_map_of_mem hlisted))
      obtain ⟨path, hne, hfile, hjoin⟩ := (hactual _).mp hin
      rw [join_inj (inventory.canonical f hf).1 hne hjoin]
      exact hfile
  · intro h name
    rw [hactual]
    refine ⟨?_, ?_⟩
    · intro hname
      obtain ⟨path, hne, hfile, rfl⟩ := hname
      by_cases hother : path = [manifestName]
      · rw [hother, join_manifestName]
        exact List.mem_cons_self
      · exact List.mem_cons_of_mem _
          (List.mem_map_of_mem ((h path).mp ⟨hfile, hother⟩))
    · intro hname
      rcases List.mem_cons.mp hname with rfl | hname
      · exact ⟨[manifestName], List.cons_ne_nil _ _, hmanifest,
          join_manifestName.symm⟩
      · obtain ⟨path, hpath, rfl⟩ := List.mem_map.mp hname
        obtain ⟨f, hf, rfl⟩ := List.mem_map.mp hpath
        exact ⟨f.path, (inventory.canonical f hf).1, ((h f.path).mpr hpath).1,
          rfl⟩

theorem load_some {text : Bytes} {manifest : Json}
    (h : loads P text = some manifest) : load P text = .ok manifest := by
  rw [load, h]

/-- The manifest file of a snapshot, and what was resolved to find it. -/
structure Placed (t : Tree) (name : String) (snapshot : AbsPath)
    (text : Bytes) : Prop where
  resolved : P.resolve t name = some snapshot
  manifest : ∃ executable, t.node (snapshot ++ [manifestName])
    = some (.leaf (.file text executable))

variable {P}

theorem Placed.root {t : Tree} {name : String} {snapshot : AbsPath}
    {text : Bytes} (h : Placed P t name snapshot text) :
    t.node snapshot = some .dir := by
  obtain ⟨executable, hnode⟩ := h.manifest
  exact FileTree.node_ancestor hnode (List.cons_ne_nil _ _)

theorem Placed.unlinked {t : Tree} {name : String} {snapshot : AbsPath}
    {text : Bytes} (h : Placed P t name snapshot text) :
    Unlinked t snapshot :=
  unlinked_of_node h.root (by simp)

/-- What a successful verification has found. -/
theorem matches_of_verified {t : Tree} {name : String} {snapshot : AbsPath}
    {text : Bytes} (hplaced : Placed P t name snapshot text)
    {result : AbsPath} (h : verifySnapshot P t name = .ok result) :
    ∃ (inventory : Inventory) (manifest : Json),
      loads P text = some manifest ∧ inventory.WrittenAs manifest ∧
        inventory.Matches P t snapshot := by
  obtain ⟨executable, hnode⟩ := hplaced.manifest
  have hmanifest : IsFile t (snapshot ++ [manifestName]) :=
    ⟨text, executable, hnode⟩
  rw [verifySnapshot, resolveStrict_some P hplaced.resolved hplaced.root,
    ok_bind, provenance_file hnode, ok_bind] at h
  obtain ⟨manifest, hload, h⟩ := bind_ok h
  obtain ⟨entries, hentries, h⟩ := bind_ok h
  obtain ⟨actual, hactual, h⟩ := bind_ok h
  obtain ⟨_, hsame, h⟩ := bind_ok h
  obtain ⟨_, hchecks, h⟩ := bind_ok h
  have hloads : loads P text = some manifest := by
    rw [load] at hload
    split at hload
    · next value hvalue =>
        injection hload with hload
        rw [hvalue, hload]
    · cases hload
  obtain ⟨inventory, hwritten, hfree, rfl⟩ :=
    (manifestEntries_iff P).mp hentries
  have hroot := hplaced.unlinked
  obtain ⟨hadmissible, hmem⟩ := foldlM_scan_ok hactual
  have hfiles : ∀ name, name ∈ actual ↔ ∃ path, path ≠ [] ∧
      IsFile t (snapshot ++ path) ∧ name = join path := by
    intro name
    rw [hmem, mem_files]
    simp only [List.not_mem_nil, false_or]
  refine ⟨inventory, manifest, hloads, hwritten, ?_, ?_, ?_, ?_⟩
  · exact (sameFiles_iff hplaced.root hmanifest hfree hfiles).mp
      (require_ok hsame)
  · intro f hf
    exact (checkEntry_iff P hroot (inventory.canonical f hf)
      (hfree f hf)).mp
      (forM_ok_iff.mp hchecks f.entry (List.mem_map_of_mem hf))
  · intro path hne hdir
    have he := hadmissible _ (FileTree.mem_below.mpr ⟨hne, hdir⟩)
    rcases he with ⟨_, hdirs⟩ | ⟨data, executable, hfile⟩
    · exact (mem_expectedDirs hne).mp hdirs
    · cases hfile
  · intro path node hne hpath
    have he := hadmissible _ (FileTree.mem_below.mpr ⟨hne, hpath⟩)
    rcases he with ⟨hdir, _⟩ | ⟨data, executable, hfile⟩
    · exact .inl hdir
    · refine .inr ⟨data, executable, ?_⟩
      rw [hpath]
      exact congrArg some hfile

theorem verified_of_matches {t : Tree} {name : String} {snapshot : AbsPath}
    {text : Bytes} (hplaced : Placed P t name snapshot text)
    {inventory : Inventory} {manifest : Json}
    (hloads : loads P text = some manifest)
    (hwritten : inventory.WrittenAs manifest)
    (hmatches : inventory.Matches P t snapshot) :
    verifySnapshot P t name = .ok snapshot := by
  obtain ⟨executable, hnode⟩ := hplaced.manifest
  have hmanifest : IsFile t (snapshot ++ [manifestName]) :=
    ⟨text, executable, hnode⟩
  have hfree : inventory.Unreserved := by
    intro f hf
    exact ((hmatches.files f.path).mpr (List.mem_map_of_mem hf)).2
  obtain ⟨actual, hactual⟩ := @foldlM_scan_of
    (expectedDirs inventory.entries) snapshot (t.below snapshot) []
    (hmatches.admissible P)
  have hfiles : ∀ name, name ∈ actual ↔ ∃ path, path ≠ [] ∧
      IsFile t (snapshot ++ path) ∧ name = join path := by
    intro name
    rw [(foldlM_scan_ok hactual).2, mem_files]
    simp only [List.not_mem_nil, false_or]
  have hroot := hplaced.unlinked
  have hsame := (sameFiles_iff hplaced.root hmanifest hfree hfiles).mpr
    hmatches.files
  have hchecks : inventory.entries.forM (checkEntry P t snapshot)
      = .ok () := by
    apply forM_ok_iff.mpr
    intro entry hentry
    obtain ⟨f, hf, rfl⟩ := List.mem_map.mp hentry
    exact (checkEntry_iff P hroot (inventory.canonical f hf)
      (hfree f hf)).mpr
      (hmatches.contents f hf)
  rw [verifySnapshot, resolveStrict_some P hplaced.resolved hplaced.root,
    ok_bind, provenance_file hnode, ok_bind, load_some P hloads, ok_bind,
    (manifestEntries_iff P).mpr ⟨inventory, hwritten, hfree, rfl⟩, ok_bind,
    hactual, ok_bind, hsame, require_true, ok_bind, hchecks]
  rfl

/-! ## One manifest, one tree -/

/-- Two inventories one JSON value is written as are the same. -/
theorem Listed.eq_of_writtenAs {f g : Listed} {entry : Json}
    (hf : f.WrittenAs entry) (hg : g.WrittenAs entry)
    (hfpath : f.path ≠ []) (hgpath : g.path ≠ []) : f = g := by
  obtain ⟨members, rfl, _, hpath, hdigest, hflag⟩ := hf
  obtain ⟨members', hsame, _, hpath', hdigest', hflag'⟩ := hg
  injection hsame with hsame
  rw [← hsame] at hpath' hdigest' hflag'
  rw [hpath] at hpath'
  rw [hdigest] at hdigest'
  rw [hflag] at hflag'
  injection hpath' with hpath'
  injection hpath' with hpath'
  injection hdigest' with hdigest'
  injection hdigest' with hdigest'
  injection hflag' with hflag'
  injection hflag' with hflag'
  obtain ⟨fpath, fdigest, fflag⟩ := f
  obtain ⟨gpath, gdigest, gflag⟩ := g
  rw [show fpath = gpath from join_inj hfpath hgpath hpath',
    show fdigest = gdigest from hdigest', show fflag = gflag from hflag']

theorem Inventory.files_eq {i j : Inventory} {manifest : Json}
    (hi : i.WrittenAs manifest) (hj : j.WrittenAs manifest) :
    i.files = j.files := by
  obtain ⟨members, items, rfl, _, _, hitems, hwritten⟩ := hi
  obtain ⟨members', items', hsame, _, _, hitems', hwritten'⟩ := hj
  injection hsame with hsame
  rw [← hsame, hitems] at hitems'
  injection hitems' with hitems'
  injection hitems' with hitems'
  rw [← hitems'] at hwritten'
  have hicanonical := i.canonical
  have hjcanonical := j.canonical
  generalize i.files = fs at hwritten hicanonical
  generalize j.files = gs at hwritten' hjcanonical
  clear hitems hitems' hsame
  induction hwritten generalizing gs with
  | nil =>
      cases hwritten'
      rfl
  | @cons f item fs items hf _ ih =>
      cases hwritten' with
      | @cons g _ gs _ hg hgs =>
          rw [Listed.eq_of_writtenAs hf hg
              (hicanonical f List.mem_cons_self).1
              (hjcanonical g List.mem_cons_self).1,
            ih (fun f hf => hicanonical f (List.mem_cons_of_mem _ hf)) gs hgs
              fun g hg => hjcanonical g (List.mem_cons_of_mem _ hg)]

/-- The same node, or two files whose different bytes have one SHA-256. -/
def Agree (P : Python) (a b : Option (Node Leaf)) : Prop :=
  a = b ∨ ∃ data data' executable,
    a = some (.leaf (.file data executable)) ∧
      b = some (.leaf (.file data' executable)) ∧ data ≠ data' ∧
        P.sha256 data = P.sha256 data'

theorem Inventory.Matches.root {inventory : Inventory} {t : Tree}
    {snapshot : AbsPath} (h : inventory.Matches P t snapshot) :
    t.node snapshot = some .dir := by
  obtain ⟨f, hf, hpath⟩ := List.mem_map.mp inventory.cargo
  obtain ⟨data, hnode, _⟩ := h.contents f hf
  exact FileTree.node_ancestor hnode (inventory.canonical f hf).1

section Two

variable {i j : Inventory} {t u : Tree} {snapshot other : AbsPath}

theorem Inventory.Matches.dir_iff (hi : i.Matches P t snapshot)
    (path : List Name) :
    t.node (snapshot ++ path) = some .dir ↔
      path = [] ∨ ∃ f ∈ i.files, path <+: f.path ∧ path ≠ f.path := by
  refine ⟨?_, ?_⟩
  · intro hdir
    by_cases hne : path = []
    · exact .inl hne
    · exact .inr (hi.dirs path hne hdir)
  · intro h
    rcases h with rfl | ⟨f, hf, ⟨rest, hrest⟩, hne⟩
    · rw [List.append_nil]
      exact hi.root
    · obtain ⟨data, hnode, _⟩ := hi.contents f hf
      rw [← hrest, ← List.append_assoc] at hnode
      refine FileTree.node_ancestor hnode ?_
      intro hnil
      rw [hnil, List.append_nil] at hrest
      exact hne hrest

/-- What stands at a path, the manifest apart: a listed file, a directory
above one, or nothing. -/
theorem Inventory.Matches.node_cases (hi : i.Matches P t snapshot)
    {path : List Name} (hpath : path ≠ [manifestName]) :
    (∃ f ∈ i.files, path = f.path ∧ ∃ data, t.node (snapshot ++ path)
        = some (.leaf (.file data f.executable)) ∧
        digest P data = f.sha256) ∨
      t.node (snapshot ++ path) = some .dir ∨
      t.node (snapshot ++ path) = none ∧
        path ∉ i.files.map Listed.path := by
  by_cases hlisted : path ∈ i.files.map Listed.path
  · obtain ⟨f, hf, rfl⟩ := List.mem_map.mp hlisted
    exact .inl ⟨f, hf, rfl, hi.contents f hf⟩
  · cases hnode : t.node (snapshot ++ path) with
    | none => exact .inr (.inr ⟨rfl, hlisted⟩)
    | some node =>
        have hfile : ¬IsFile t (snapshot ++ path) := by
          intro hfile
          exact hlisted ((hi.files path).mp ⟨hfile, hpath⟩)
        by_cases hne : path = []
        · rw [hne, List.append_nil, hi.root] at hnode
          exact .inr (.inl hnode.symm)
        · rcases hi.others path node hne hnode with rfl | hother
          · exact .inr (.inl rfl)
          · exact absurd hother hfile

/-- Two trees that match the same files agree, hash collisions apart. -/
theorem Inventory.Matches.agree (hi : i.Matches P t snapshot)
    (hj : j.Matches P u other) (hfiles : i.files = j.files)
    {path : List Name} (hpath : path ≠ [manifestName]) :
    Agree P (t.node (snapshot ++ path)) (u.node (other ++ path)) := by
  have hdir : t.node (snapshot ++ path) = some .dir ↔
      u.node (other ++ path) = some .dir := by
    rw [hi.dir_iff, hj.dir_iff, hfiles]
  rcases hi.node_cases hpath with ⟨f, hf, rfl, data, hnode, hdigest⟩ | hother
  · obtain ⟨data', hnode', hdigest'⟩ := hj.contents f (hfiles ▸ hf)
    by_cases hdata : data = data'
    · exact .inl (by rw [hnode, hnode', hdata])
    · refine .inr ⟨data, data', f.executable, hnode, hnode', hdata, ?_⟩
      exact Vector.toList_inj.mp
        (hexEncode_inj (hdigest.trans hdigest'.symm))
  · rcases hother with hnode | ⟨hnode, hunlisted⟩
    · exact .inl (hnode.trans (hdir.mp hnode).symm)
    · rcases hj.node_cases hpath with ⟨f, hf, rfl, _⟩ | hnode' | ⟨hnode', _⟩
      · rw [hfiles] at hunlisted
        exact absurd (List.mem_map_of_mem hf) hunlisted
      · rw [hdir.mpr hnode'] at hnode
        cases hnode
      · exact .inl (hnode.trans hnode'.symm)

end Two

end

end SapioTee.Snapshot
