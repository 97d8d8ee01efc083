import SapioTee.Model.Snapshot

/-!
# What a manifest says

A canonical path and its text determine each other: the text is the names
with slashes between them, and parsing it gives the names back. So an
inventory can be read as a list of name lists with digests and flags, and
`entries_by_path` as a test whether a JSON value writes one down.
-/

namespace SapioTee.Snapshot

open Lib

/-! ## Paths and their texts -/

theorem component_val (name : Name) : component name.val = some name :=
  dif_pos name.property

theorem toList_join (names : List Name) :
    (join names).toList = ['/'].intercalate (names.map Subtype.val) :=
  String.toList_ofList

theorem splitOn_join {names : List Name} (h : names ≠ []) :
    (join names).toList.splitOn '/' = names.map Subtype.val := by
  rw [toList_join, List.splitOn_intercalate]
  · intro piece hpiece
    obtain ⟨name, -, rfl⟩ := List.mem_map.mp hpiece
    exact name.property.2.2
  · intro hnil
    exact h (List.map_eq_nil_iff.mp hnil)

theorem tail_join {names : List Name} (h : names ≠ []) :
    (purePosixPath (join names)).tail = names := by
  show ((join names).toList.splitOn '/').filterMap component = names
  rw [splitOn_join h, List.filterMap_map]
  have hsome : component ∘ Subtype.val = (some : Name → Option Name) := by
    funext name
    exact component_val name
  rw [hsome, List.filterMap_some]

theorem join_inj {as bs : List Name} (ha : as ≠ []) (hb : bs ≠ [])
    (h : join as = join bs) : as = bs := by
  rw [← tail_join ha, ← tail_join hb, h]

/-- A path of names does not start with a slash. -/
theorem root_join (names : List Name) :
    (purePosixPath (join names)).root = "" := by
  have hlead : ((join names).toList.takeWhile (· == '/')).length = 0 := by
    rw [toList_join]
    cases names with
    | nil => rfl
    | cons name names =>
        obtain ⟨s, hs⟩ := name
        cases s with
        | nil => exact absurd rfl hs.1
        | cons c s =>
            have hc : (c == '/') = false := by
              apply beq_false_of_ne
              intro hslash
              exact hs.2.2 (by rw [hslash]; exact List.mem_cons_self)
            cases names with
            | nil =>
                show (List.takeWhile _ (c :: s ++ [])).length = 0
                rw [List.cons_append, List.takeWhile_cons, hc]
                rfl
            | cons next names =>
                rw [List.map_cons, List.map_cons, List.intercalate_cons_cons]
                show (List.takeWhile _ (c :: s ++ _ ++ _)).length = 0
                rw [List.cons_append, List.cons_append, List.takeWhile_cons,
                  hc]
                rfl
  unfold purePosixPath
  rw [hlead]
  rfl

theorem purePosixPath_join {names : List Name} (h : names ≠ []) :
    purePosixPath (join names) = ⟨"", names⟩ := by
  have hroot := root_join names
  have htail := tail_join h
  generalize purePosixPath (join names) = path at hroot htail
  obtain ⟨root, tail⟩ := path
  rw [show root = "" from hroot, show tail = names from htail]

theorem str_names {names : List Name} (h : names ≠ []) :
    PurePosixPath.str ⟨"", names⟩ = join names := by
  have hnot : ¬(("" : String) = "" ∧ names = []) := fun hboth => h hboth.2
  show (if ("" : String) = "" ∧ names = [] then "." else "" ++ join names) = _
  rw [if_neg hnot, String.empty_append]

/-- A text that splits into one piece no name can be is not of names. -/
theorem join_ne {names : List Name} (h : names ≠ []) {s : String}
    {piece : List Char} (hs : s.toList.splitOn '/' = [piece])
    (hpiece : ∀ name : Name, name.val ≠ piece) : join names ≠ s := by
  intro hjoin
  have hsplit := splitOn_join h
  rw [hjoin, hs] at hsplit
  cases names with
  | nil => exact h rfl
  | cons name names =>
      rw [List.map_cons] at hsplit
      injection hsplit with hhead _
      exact hpiece name hhead.symm

theorem join_ne_dot {names : List Name} (h : names ≠ []) :
    join names ≠ "." :=
  join_ne h (by decide) fun name => name.property.2.1

theorem join_ne_empty {names : List Name} (h : names ≠ []) :
    join names ≠ "" :=
  join_ne h (by decide) fun name => name.property.1

/-- A path that leads down from where it starts. -/
def Canonical (names : List Name) : Prop :=
  names ≠ [] ∧ ∀ name ∈ names, name.val ≠ ['.', '.']

section

variable (P : Python)

theorem relativePath_join {names : List Name} (h : Canonical names)
    (hmanifest : names ≠ [manifestName]) :
    relativePath P (.str (join names)) = .ok ⟨"", names⟩ := by
  have hempty : (join names != "") = true :=
    bne_iff_ne.mpr (join_ne_empty h.1)
  have hreserved : (join names != manifestFile) = true := by
    apply bne_iff_ne.mpr
    intro hsame
    exact hmanifest (join_inj h.1 (List.cons_ne_nil _ _) hsame)
  have hparts : (names.all fun part =>
      part.val != ['.'] && part.val != ['.', '.']) = true := by
    rw [List.all_eq_true]
    intro name hname
    rw [Bool.and_eq_true]
    exact ⟨bne_iff_ne.mpr name.property.2.1, bne_iff_ne.mpr (h.2 name hname)⟩
  have hsome : names.isEmpty = false := List.isEmpty_eq_false_iff.mpr h.1
  rw [relativePath]
  simp only [Json.str?, present, ok_bind, hempty, require_true,
    purePosixPath_join h.1, str_names h.1, beq_self_eq_true, hsome, hparts,
    hreserved, Bool.not_false, Bool.and_true]
  rfl

theorem relativePath_ok {value : Json} {path : PurePosixPath}
    (h : relativePath P value = .ok path) :
    ∃ names, Canonical names ∧ names ≠ [manifestName] ∧
      value = .str (join names) ∧ path = ⟨"", names⟩ := by
  rw [relativePath] at h
  obtain ⟨text, htext, h⟩ := bind_ok h
  obtain ⟨_, hempty, h⟩ := bind_ok h
  obtain ⟨_, hchecks, h⟩ := bind_ok h
  obtain ⟨_, hreserved, h⟩ := bind_ok h
  injection h with h
  have hvalue := Json.eq_str (present_ok htext)
  have hchecks := require_ok hchecks
  simp only [Bool.and_eq_true] at hchecks
  obtain ⟨⟨⟨hroot, htail⟩, hstr⟩, hall⟩ := hchecks
  have hroot := eq_of_beq hroot
  have hne : (purePosixPath text).tail ≠ [] := by
    intro hnil
    rw [hnil] at htail
    cases htail
  have hpath : purePosixPath text = ⟨"", (purePosixPath text).tail⟩ := by
    generalize purePosixPath text = p at hroot
    obtain ⟨root, tail⟩ := p
    rw [show root = "" from hroot]
  have hjoin : join (purePosixPath text).tail = text := by
    have hstr := eq_of_beq hstr
    rw [hpath, str_names hne] at hstr
    exact hstr
  refine ⟨(purePosixPath text).tail, ⟨hne, ?_⟩, ?_, ?_, ?_⟩
  · intro name hname
    have hname := List.all_eq_true.mp hall name hname
    rw [Bool.and_eq_true] at hname
    exact bne_iff_ne.mp hname.2
  · intro hmanifest
    rw [hmanifest] at hjoin
    exact bne_iff_ne.mp (require_ok hreserved) hjoin.symm
  · rw [hjoin]
    exact hvalue
  · rw [← h]
    exact hpath

/-! ## Reading a file -/

section

variable {t : Tree} {path : AbsPath} {name : Name} {node : Node Leaf}

/-- No link stands on the way of a path, or at its end. -/
abbrev Unlinked (t : Tree) (path : AbsPath) : Prop :=
  FileTree.Unlinked linkTarget t path

theorem locate_ok {final : Bool} {place : AbsPath} (hway : Unlinked t path)
    (h : locate t final path = .ok place) : place = path := by
  rw [locate] at h
  split at h
  · next hplace =>
      injection h with h
      rw [← h]
      exact FileTree.follow_unlinked hway hplace
  · cases h

/-- What is at a path is found there. -/
theorem locate_of {final : Bool} (h : t.node path = some node)
    (hlink : final = true → ∀ target, node ≠ .leaf (.link target)) :
    locate t final path = .ok path := by
  rw [locate, FileTree.follow_of_node h]
  intro content hfinal hleaf
  cases content with
  | link target => exact absurd hleaf (hlink hfinal target)
  | file data executable => rfl
  | special => rfl

theorem lstat_ok (hway : Unlinked t path)
    (h : lstat t (path ++ [name]) = .ok node) :
    t.node (path ++ [name]) = some node := by
  rw [lstat, stat] at h
  obtain ⟨place, hplace, h⟩ := bind_ok h
  have hsame : place = path ++ [name] := by
    rw [locate] at hplace
    split at hplace
    · next hfollow =>
        injection hplace with hplace
        rw [← hplace]
        exact FileTree.follow_concat hway hfollow
    · cases hplace
  rw [hsame] at h
  split at h
  · next hnode =>
      injection h with h
      rw [hnode, h]
  · cases h

theorem lstat_of (h : t.node path = some node) : lstat t path = .ok node := by
  rw [lstat, stat, locate_of h (fun hfinal => absurd hfinal Bool.false_ne_true),
    ok_bind, h]
  rfl

theorem readFile_ok {opened : Opened} (hway : Unlinked t path)
    (h : readFile t path = .ok opened) :
    opened.path = path ∧ t.node path
      = some (.leaf (.file opened.data opened.executable)) := by
  rw [readFile] at h
  obtain ⟨place, hplace, h⟩ := bind_ok h
  rw [locate_ok hway hplace] at h
  split at h
  · next hnode =>
      injection h with h
      rw [← h]
      exact ⟨rfl, hnode⟩
  · cases h

theorem readFile_of {data : Bytes} {executable : Bool}
    (h : t.node path = some (.leaf (.file data executable))) :
    readFile t path = .ok ⟨path, data, executable⟩ := by
  rw [readFile, locate_of h (by simp), ok_bind, h]
  rfl

/-- The path of a directory or of a file. -/
theorem unlinked_of_node (h : t.node path = some node)
    (hlink : ∀ target, node ≠ .leaf (.link target)) : Unlinked t path := by
  refine FileTree.unlinked_of_node h ?_
  intro content hleaf
  cases content with
  | link target => exact absurd hleaf (hlink target)
  | file data executable => rfl
  | special => rfl

/-- A walk that arrives has gone through directories, no link among them, to
a regular file. -/
theorem walk_ok {arrived : AbsPath} {parts : List Name} (hne : parts ≠ [])
    (hway : Unlinked t path) (h : walk t path parts = .ok arrived) :
    arrived = path ++ parts ∧ ∃ data executable,
      t.node (path ++ parts) = some (.leaf (.file data executable)) := by
  induction parts generalizing path with
  | nil => exact absurd rfl hne
  | cons part rest ih =>
      rw [walk] at h
      obtain ⟨node, hstat, h⟩ := bind_ok h
      have hnode := lstat_ok hway hstat
      split at h
      · next hlast =>
          rw [List.isEmpty_iff.mp hlast]
          split at h
          · injection h with h
            exact ⟨h.symm, _, _, hnode⟩
          · cases h
      · next hmore =>
          split at h
          · rw [List.append_cons]
            refine ih (fun hnil => hmore (List.isEmpty_iff.mpr hnil)) ?_ h
            exact unlinked_of_node hnode (by simp)
          · cases h

theorem walk_file {parts : List Name} {data : Bytes} {executable : Bool}
    (hne : parts ≠ [])
    (h : t.node (path ++ parts) = some (.leaf (.file data executable))) :
    walk t path parts = .ok (path ++ parts) := by
  induction parts generalizing path with
  | nil => exact absurd rfl hne
  | cons part rest ih =>
      have hsplit : path ++ part :: rest = path ++ [part] ++ rest :=
        List.append_cons path part rest
      rw [walk]
      by_cases hrest : rest = []
      · rw [hrest] at h ⊢
        rw [lstat_of h]
        rfl
      · rw [hsplit] at h ⊢
        have hmore : rest.isEmpty = false :=
          List.isEmpty_eq_false_iff.mpr hrest
        rw [lstat_of (FileTree.node_ancestor h hrest)]
        simp only [ok_bind, hmore]
        exact ih hrest h

end

theorem fileContent_join {t : Tree} {root : AbsPath} {names : List Name}
    {data : Bytes} {executable : Bool} (hnames : Canonical names)
    (hmanifest : names ≠ [manifestName])
    (h : t.node (root ++ names) = some (.leaf (.file data executable))) :
    fileContent P t root (join names)
      = .ok ⟨root ++ names, data, executable⟩ := by
  rw [fileContent, relativePath_join P hnames hmanifest, ok_bind,
    walk_file hnames.1 h, ok_bind, readFile_of h]

theorem fileContent_ok {t : Tree} {root : AbsPath} {relative : String}
    {opened : Opened} (hroot : Unlinked t root)
    (h : fileContent P t root relative = .ok opened) :
    ∃ names, Canonical names ∧ names ≠ [manifestName] ∧
      relative = join names ∧ opened.path = root ++ names ∧
      t.node (root ++ names)
        = some (.leaf (.file opened.data opened.executable)) := by
  rw [fileContent] at h
  obtain ⟨parsed, hparsed, h⟩ := bind_ok h
  obtain ⟨path, hwalk, hread⟩ := bind_ok h
  obtain ⟨names, hnames, hmanifest, hrelative, hparts⟩ :=
    relativePath_ok P hparsed
  injection hrelative with hrelative
  rw [hparts] at hwalk
  obtain ⟨harrived, data, executable, hfile⟩ := walk_ok hnames.1 hroot hwalk
  rw [harrived] at hread
  obtain ⟨hpath, hnode⟩ := readFile_ok
    (unlinked_of_node hfile (by simp)) hread
  exact ⟨names, hnames, hmanifest, hrelative, hpath, hnode⟩

/-! ## Inventories -/

/-- One file of an inventory. -/
structure Listed where
  path : List Name
  sha256 : String
  executable : Bool

def cargoToml : Name := ⟨"Cargo.toml".toList, by decide⟩

/-- A reviewed inventory: every path leads down and is listed once, every
digest is one, and the crate's own manifest is in it. -/
structure Inventory where
  files : List Listed
  canonical : ∀ f ∈ files, Canonical f.path
  unique : (files.map Listed.path).Nodup
  digests : ∀ f ∈ files, lowercaseHex64 f.sha256 = true
  cargo : [cargoToml] ∈ files.map Listed.path

/-- The JSON object an entry of an inventory is. -/
def Listed.WrittenAs (f : Listed) (entry : Json) : Prop :=
  ∃ members, entry = .obj members ∧
    Json.hasExactly ["path", "sha256", "executable"] members = true ∧
    Json.get members "path" = some (.str (join f.path)) ∧
    Json.get members "sha256" = some (.str f.sha256) ∧
    Json.get members "executable" = some (.bool f.executable)

/-- The JSON value that is a version 1 inventory. -/
def Inventory.WrittenAs (inventory : Inventory) (manifest : Json) : Prop :=
  ∃ members items, manifest = .obj members ∧
    Json.hasExactly ["version", "files"] members = true ∧
    Json.get members "version" = some (.int 1) ∧
    Json.get members "files" = some (.arr items) ∧
    List.Forall₂ Listed.WrittenAs inventory.files items

/-- The entry the script keeps of a listed file, under its text. -/
def Listed.entry (f : Listed) : String × Entry :=
  (join f.path, ⟨join f.path, f.sha256, f.executable⟩)

/-- What `entries_by_path` asks of one entry, the entries before it aside. -/
def Listed.Valid (f : Listed) : Prop :=
  Canonical f.path ∧ f.path ≠ [manifestName] ∧ lowercaseHex64 f.sha256 = true

theorem addEntry_ok {result result' : List (String × Entry)} {entry : Json}
    (h : addEntry P result entry = .ok result') :
    ∃ f : Listed, f.Valid ∧ f.WrittenAs entry ∧
      join f.path ∉ result.map Prod.fst ∧ result' = result ++ [f.entry] := by
  rw [addEntry] at h
  obtain ⟨members, hdict, h⟩ := bind_ok h
  obtain ⟨path, hpath, h⟩ := bind_ok h
  obtain ⟨parsed, hparsed, h⟩ := bind_ok h
  obtain ⟨flag, hflag, h⟩ := bind_ok h
  obtain ⟨_, hnew, h⟩ := bind_ok h
  obtain ⟨value, hvalue, h⟩ := bind_ok h
  obtain ⟨digest, hdigest, h⟩ := bind_ok h
  obtain ⟨_, hhex, h⟩ := bind_ok h
  injection h with h
  obtain ⟨hentry, hfields⟩ := dict_ok hdict
  obtain ⟨names, hnames, hmanifest, hjson, rfl⟩ := relativePath_ok P hparsed
  have hnew := require_ok hnew
  rw [str_names hnames.1, Bool.and_eq_true] at hnew
  obtain ⟨executable, hexec⟩ := Option.isSome_iff_exists.mp hnew.2
  have hvalue := item_ok hvalue
  have hflag := item_ok hflag
  rw [Json.eq_str (present_ok hdigest)] at hvalue
  rw [Json.eq_bool hexec] at hflag
  have hpath := item_ok hpath
  rw [hjson] at hpath
  refine ⟨⟨names, digest, executable⟩,
    ⟨hnames, hmanifest, require_ok hhex⟩,
    ⟨members, hentry, hfields, hpath, hvalue, hflag⟩, ?_, ?_⟩
  · intro hmem
    have hin := List.contains_iff_mem.mpr hmem
    rw [hin] at hnew
    cases hnew.1
  · rw [← h, hjson, hexec, str_names hnames.1]
    rfl

theorem addEntry_of {result : List (String × Entry)} {entry : Json}
    {f : Listed} (hvalid : f.Valid) (hentry : f.WrittenAs entry)
    (hnew : join f.path ∉ result.map Prod.fst) :
    addEntry P result entry = .ok (result ++ [f.entry]) := by
  obtain ⟨members, rfl, hfields, hpath, hdigest, hflag⟩ := hentry
  obtain ⟨hnames, hmanifest, hhex⟩ := hvalid
  have hnot : (result.map Prod.fst).contains (join f.path) = false := by
    rw [List.contains_eq_mem]
    exact decide_eq_false hnew
  rw [addEntry, dict_obj hfields, ok_bind, item_of_get hpath, ok_bind,
    relativePath_join P hnames hmanifest, ok_bind, item_of_get hflag, ok_bind,
    str_names hnames.1, hnot]
  simp only [Json.bool?, Option.isSome_some, Bool.not_false, Bool.and_true,
    require_true, ok_bind, item_of_get hdigest, Json.str?, present, hhex]
  rfl

theorem map_entry (files : List Listed) :
    (files.map Listed.entry).map Prod.fst
      = (files.map Listed.path).map join := by
  rw [List.map_map, List.map_map]
  rfl

/-- The whole loop, from what it had before. -/
theorem foldlM_addEntry_ok {items : List Json}
    {result result' : List (String × Entry)}
    (h : items.foldlM (addEntry P) result = .ok result') :
    ∃ files : List Listed, (∀ f ∈ files, f.Valid) ∧
      List.Forall₂ Listed.WrittenAs files items ∧
      result' = result ++ files.map Listed.entry ∧
      (files.map Listed.path).Nodup ∧
      ∀ f ∈ files, join f.path ∉ result.map Prod.fst := by
  induction items generalizing result with
  | nil =>
      injection h with h
      refine ⟨[], ?_, .nil, ?_, List.nodup_nil, ?_⟩
      · intro f hf
        cases hf
      · rw [List.map_nil, List.append_nil]
        exact h.symm
      · intro f hf
        cases hf
  | cons item items ih =>
      rw [List.foldlM_cons] at h
      obtain ⟨next, hnext, h⟩ := bind_ok h
      obtain ⟨f, hvalid, hwritten, hnew, rfl⟩ := addEntry_ok P hnext
      obtain ⟨files, hall, hwrittens, rfl, hnodup, hrest⟩ := ih h
      have hbefore : ∀ g ∈ files, join g.path ∉ result.map Prod.fst ∧
          g.path ≠ f.path := by
        intro g hg
        have hnot := hrest g hg
        rw [List.map_append, List.mem_append, not_or] at hnot
        refine ⟨hnot.1, ?_⟩
        intro hsame
        exact hnot.2 (by rw [hsame]; exact List.mem_singleton_self _)
      refine ⟨f :: files, ?_, .cons hwritten hwrittens, ?_, ?_, ?_⟩
      · intro g hg
        rcases List.mem_cons.mp hg with rfl | hg
        · exact hvalid
        · exact hall g hg
      · rw [List.map_cons, List.append_assoc]
        rfl
      · rw [List.map_cons, List.nodup_cons]
        refine ⟨?_, hnodup⟩
        intro hmem
        obtain ⟨g, hg, hsame⟩ := List.mem_map.mp hmem
        exact (hbefore g hg).2 hsame
      · intro g hg
        rcases List.mem_cons.mp hg with rfl | hg
        · exact hnew
        · exact (hbefore g hg).1

theorem foldlM_addEntry_of {items : List Json} {files : List Listed}
    {result : List (String × Entry)} (hall : ∀ f ∈ files, f.Valid)
    (hwritten : List.Forall₂ Listed.WrittenAs files items)
    (hnodup : (files.map Listed.path).Nodup)
    (hnew : ∀ f ∈ files, join f.path ∉ result.map Prod.fst) :
    items.foldlM (addEntry P) result
      = .ok (result ++ files.map Listed.entry) := by
  induction hwritten generalizing result with
  | nil =>
      rw [List.map_nil, List.append_nil]
      rfl
  | @cons f item files items hf hrest ih =>
      rw [List.map_cons, List.nodup_cons] at hnodup
      have hvalid := hall f List.mem_cons_self
      rw [List.foldlM_cons,
        addEntry_of P hvalid hf (hnew f List.mem_cons_self), ok_bind,
        ih (fun g hg => hall g (List.mem_cons_of_mem _ hg)) hnodup.2,
        List.append_assoc]
      · rfl
      · intro g hg
        rw [List.map_append, List.mem_append, not_or]
        refine ⟨hnew g (List.mem_cons_of_mem _ hg), ?_⟩
        intro hsame
        have hjoin : join g.path = join f.path := List.mem_singleton.mp hsame
        have hpath := join_inj (hall g (List.mem_cons_of_mem _ hg)).1.1
          hvalid.1.1 hjoin
        exact hnodup.1 (List.mem_map.mpr ⟨g, hg, hpath⟩)

/-- An inventory that does not list the manifest itself. -/
def Inventory.Unreserved (inventory : Inventory) : Prop :=
  ∀ f ∈ inventory.files, f.path ≠ [manifestName]

def Inventory.entries (inventory : Inventory) : List (String × Entry) :=
  inventory.files.map Listed.entry

theorem entriesByPath_ok {files : Json} {entries : List (String × Entry)}
    (h : entriesByPath P files = .ok entries) :
    ∃ (inventory : Inventory) (items : List Json), files = .arr items ∧
      List.Forall₂ Listed.WrittenAs inventory.files items ∧
      inventory.Unreserved ∧ entries = inventory.entries := by
  cases files with
  | arr items =>
      obtain ⟨result, hresult, h⟩ := bind_ok h
      obtain ⟨_, hcargo, h⟩ := bind_ok h
      injection h with h
      obtain ⟨listed, hall, hwritten, hlisted, hnodup, _⟩ :=
        foldlM_addEntry_ok P hresult
      rw [List.nil_append] at hlisted
      have hcargo := List.contains_iff_mem.mp (require_ok hcargo)
      rw [hlisted, map_entry] at hcargo
      obtain ⟨path, hpath, hname⟩ := List.mem_map.mp hcargo
      obtain ⟨f, hf, rfl⟩ := List.mem_map.mp hpath
      have hcargo : f.path = [cargoToml] :=
        join_inj (hall f hf).1.1 (List.cons_ne_nil _ _) hname
      refine ⟨⟨listed, fun f hf => (hall f hf).1, hnodup,
        fun f hf => (hall f hf).2.2, hcargo ▸ hpath⟩, items, rfl, hwritten,
        fun f hf => (hall f hf).2.1, ?_⟩
      rw [← h, hlisted]
      rfl
  | _ => cases h

theorem entriesByPath_of {inventory : Inventory} {items : List Json}
    (hwritten : List.Forall₂ Listed.WrittenAs inventory.files items)
    (hfree : inventory.Unreserved) :
    entriesByPath P (.arr items) = .ok inventory.entries := by
  have hloop := @foldlM_addEntry_of P items inventory.files []
    (fun f hf => ⟨inventory.canonical f hf, hfree f hf,
      inventory.digests f hf⟩) hwritten inventory.unique
    (fun f _ => List.not_mem_nil)
  have hcargo : (inventory.entries.map Prod.fst).contains "Cargo.toml"
      = true := by
    rw [Inventory.entries, map_entry, List.contains_iff_mem]
    exact List.mem_map.mpr ⟨_, inventory.cargo, by decide⟩
  rw [entriesByPath, hloop, List.nil_append, ok_bind, ← Inventory.entries,
    hcargo]
  rfl

theorem manifestEntries_iff {manifest : Json}
    {entries : List (String × Entry)} :
    manifestEntries P manifest = .ok entries ↔
      ∃ inventory : Inventory, inventory.WrittenAs manifest ∧
        inventory.Unreserved ∧ entries = inventory.entries := by
  refine ⟨?_, ?_⟩
  · intro h
    rw [manifestEntries] at h
    obtain ⟨members, hdict, h⟩ := bind_ok h
    obtain ⟨version, hversion, h⟩ := bind_ok h
    obtain ⟨_, hone, h⟩ := bind_ok h
    obtain ⟨files, hfiles, h⟩ := bind_ok h
    obtain ⟨hmanifest, hfields⟩ := dict_ok hdict
    obtain ⟨inventory, items, rfl, hwritten, hfree, hentries⟩ :=
      entriesByPath_ok P h
    have hversion := item_ok hversion
    rw [Json.eq_int (eq_of_beq (require_ok hone))] at hversion
    exact ⟨inventory, ⟨members, items, hmanifest, hfields, hversion,
      item_ok hfiles, hwritten⟩, hfree, hentries⟩
  · intro h
    obtain ⟨inventory, ⟨members, items, rfl, hfields, hversion, hfiles,
      hwritten⟩, hfree, rfl⟩ := h
    rw [manifestEntries, dict_obj hfields, ok_bind, item_of_get hversion,
      ok_bind, item_of_get hfiles]
    show entriesByPath P (.arr items) = _
    exact entriesByPath_of P hwritten hfree

end

end SapioTee.Snapshot
