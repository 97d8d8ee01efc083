import Mathlib.Data.List.Sort
import Mathlib.Data.String.Basic

/-!
# JSON values as Python's reader hands them over

An object is the list of its members in the order they stand in the text,
repeated names included; `get` takes the last of a name, which is the one
Python keeps. A number with a fraction or an exponent is its value, which
Python's comparison with an integer goes by, and the three names Python
reads beyond the grammar (`NaN`, `Infinity` and `-Infinity`) are `constant`.

`eq` is Python's `==`: members in any order, truth values as the integers
they are. On values without repeated names and constants it is reflexive.
`sortKeys` is what a printer that sorts names writes: each name once, with
the value `get` has for it.
-/

namespace SapioTee.Lib

inductive Json where
  | null
  | bool (b : Bool)
  | int (n : Int)
  | float (x : Rat)
  | constant (name : String)
  | str (s : String)
  | arr (items : List Json)
  | obj (members : List (String × Json))

/-- The members of an object, by name. -/
abbrev Members := List (String × Json)

namespace Json

/-- `set(value) == {..}`, the names in any order. -/
def hasExactly (names : List String) (members : Members) : Bool :=
  (members.all fun m => names.contains m.1) &&
    names.all fun name => (members.map Prod.fst).contains name

theorem hasExactly_iff {names : List String} {members : Members} :
    hasExactly names members = true ↔
      ∀ name, name ∈ members.map Prod.fst ↔ name ∈ names := by
  rw [hasExactly, Bool.and_eq_true, List.all_eq_true, List.all_eq_true]
  constructor
  · rintro ⟨hin, hout⟩ name
    constructor
    · intro hname
      obtain ⟨m, hm, rfl⟩ := List.mem_map.mp hname
      exact List.contains_iff_mem.mp (hin m hm)
    · intro hname
      exact List.contains_iff_mem.mp (hout name hname)
  · intro h
    constructor
    · intro m hm
      exact List.contains_iff_mem.mpr
        ((h m.1).mp (List.mem_map_of_mem hm))
    · intro name hname
      exact List.contains_iff_mem.mpr ((h name).mpr hname)

/-- `value[name]`. -/
def get (members : Members) (name : String) : Option Json :=
  members.reverse.lookup name

theorem get_isSome {members : Members} {name : String}
    (h : name ∈ members.map Prod.fst) :
    ∃ value, get members name = some value := by
  obtain ⟨m, hm, rfl⟩ := List.mem_map.mp h
  exact Option.isSome_iff_exists.mp (List.lookup_isSome_iff.mpr
    ⟨m, List.mem_reverse.mpr hm, beq_self_eq_true _⟩)

theorem mem_of_lookup {members : Members} {name : String} {value : Json}
    (h : members.lookup name = some value) : (name, value) ∈ members := by
  induction members with
  | nil => cases h
  | cons m members ih =>
      rw [List.lookup_cons] at h
      split at h
      · next hname =>
          injection h with h
          rw [eq_of_beq hname, ← h]
          exact List.mem_cons_self
      · exact List.mem_cons_of_mem _ (ih h)

theorem mem_of_get {members : Members} {name : String} {value : Json}
    (h : get members name = some value) : (name, value) ∈ members :=
  List.mem_reverse.mp (mem_of_lookup h)

theorem get_of_mem {members : Members} {name : String} {value : Json}
    (hnd : (members.map Prod.fst).Nodup) (h : (name, value) ∈ members) :
    get members name = some value := by
  rw [get]
  have hnd' : (members.reverse.map Prod.fst).Nodup := by
    rw [List.map_reverse]
    exact List.nodup_reverse.mpr hnd
  have h' : (name, value) ∈ members.reverse := List.mem_reverse.mpr h
  generalize members.reverse = l at hnd' h'
  induction l with
  | nil => cases h'
  | cons m l ih =>
      rw [List.map_cons, List.nodup_cons] at hnd'
      rcases List.mem_cons.mp h' with hm | hm
      · rw [← hm, List.lookup_cons_self]
      · have hne : (name == m.1) = false := by
          apply beq_false_of_ne
          rintro rfl
          exact hnd'.1 (List.mem_map.mpr ⟨_, hm, rfl⟩)
        rw [List.lookup_cons, hne]
        exact ih hnd'.2 hm

/-- The string a value is, if it is one. -/
def str? : Json → Option String
  | .str s => some s
  | _ => none

/-- The integer a value is; truth values and fractions are none. -/
def int? : Json → Option Int
  | .int n => some n
  | _ => none

/-- The truth value a value is. -/
def bool? : Json → Option Bool
  | .bool b => some b
  | _ => none

theorem eq_str {v : Json} {s : String} (h : v.str? = some s) :
    v = .str s := by
  cases v with
  | str t => injection h with h; rw [h]
  | _ => cases h

theorem eq_int {v : Json} {n : Int} (h : v.int? = some n) : v = .int n := by
  cases v with
  | int m => injection h with h; rw [h]
  | _ => cases h

theorem eq_bool {v : Json} {b : Bool} (h : v.bool? = some b) :
    v = .bool b := by
  cases v with
  | bool c => injection h with h; rw [h]
  | _ => cases h

/-- The order in which names are sorted. -/
def byName (a b : String × Json) : Prop := a.1 ≤ b.1

instance : DecidableRel byName := fun a b =>
  inferInstanceAs (Decidable (a.1 ≤ b.1))

/-- The members a dictionary keeps: the last of each name. -/
def lastOfEach : Members → Members
  | [] => []
  | m :: members =>
      if m.1 ∈ members.map Prod.fst then lastOfEach members
      else m :: lastOfEach members

/-! ## Equality -/

/-- The number a value is in a comparison. -/
def number : Json → Option Rat
  | .bool b => some (if b then 1 else 0)
  | .int n => some n
  | .float x => some x
  | _ => none

mutual

def eq : Json → Json → Bool
  | .null, .null => true
  | .constant a, .constant b => a == b && a != "NaN"
  | .str a, .str b => a == b
  | .arr xs, .arr ys => eqItems xs ys
  | .obj xs, .obj ys => xs.length == ys.length && eqMembers xs ys
  | a, b =>
      match a.number, b.number with
      | some x, some y => x == y
      | _, _ => false

def eqItems : List Json → List Json → Bool
  | [], [] => true
  | x :: xs, y :: ys => eq x y && eqItems xs ys
  | _, _ => false

def eqMembers : List (String × Json) → List (String × Json) → Bool
  | [], _ => true
  | (name, x) :: xs, ys =>
      (match get ys name with
        | some y => eq x y
        | none => false) && eqMembers xs ys

end

mutual

/-- No object repeats a name. -/
def unique : Json → Bool
  | .arr items => uniqueItems items
  | .obj members => decide (members.map Prod.fst).Nodup && uniqueMembers members
  | _ => true

def uniqueItems : List Json → Bool
  | [] => true
  | x :: xs => unique x && uniqueItems xs

def uniqueMembers : List (String × Json) → Bool
  | [] => true
  | (_, x) :: xs => unique x && uniqueMembers xs

end

mutual

/-- The constants of the text, in its order. -/
def constants : Json → List String
  | .constant name => [name]
  | .arr items => constantsItems items
  | .obj members => constantsMembers members
  | _ => []

def constantsItems : List Json → List String
  | [] => []
  | x :: xs => constants x ++ constantsItems xs

def constantsMembers : List (String × Json) → List String
  | [] => []
  | (_, x) :: xs => constants x ++ constantsMembers xs

end

mutual

/-- The members every object keeps, in the order of their names. -/
def sortKeys : Json → Json
  | .arr items => .arr (sortKeysItems items)
  | .obj members =>
      .obj (lastOfEach ((sortKeysMembers members).insertionSort byName))
  | value => value

def sortKeysItems : List Json → List Json
  | [] => []
  | x :: xs => sortKeys x :: sortKeysItems xs

def sortKeysMembers : List (String × Json) → List (String × Json)
  | [] => []
  | (name, x) :: xs => (name, sortKeys x) :: sortKeysMembers xs

end

mutual

theorem eq_self (v : Json) (hu : v.unique = true) (hc : v.constants = []) :
    eq v v = true := by
  match v with
  | .null => rw [eq]
  | .bool b => simp [eq, number]
  | .int n => simp [eq, number]
  | .float x => simp [eq, number]
  | .constant name =>
      rw [constants] at hc
      cases hc
  | .str s => simp [eq]
  | .arr items =>
      rw [unique] at hu
      rw [constants] at hc
      rw [eq]
      exact eqItems_self items hu hc
  | .obj members =>
      rw [unique, Bool.and_eq_true] at hu
      rw [constants] at hc
      rw [eq, beq_self_eq_true, Bool.true_and]
      exact eqMembers_of members members
        (fun m hm => get_of_mem (of_decide_eq_true hu.1) hm) hu.2 hc

theorem eqItems_self (items : List Json) (hu : uniqueItems items = true)
    (hc : constantsItems items = []) : eqItems items items = true := by
  match items with
  | [] => rw [eqItems]
  | x :: xs =>
      rw [uniqueItems, Bool.and_eq_true] at hu
      rw [constantsItems, List.append_eq_nil_iff] at hc
      rw [eqItems, eq_self x hu.1 hc.1, eqItems_self xs hu.2 hc.2]
      rfl

theorem eqMembers_of (xs ys : List (String × Json))
    (h : ∀ m ∈ xs, get ys m.1 = some m.2) (hu : uniqueMembers xs = true)
    (hc : constantsMembers xs = []) : eqMembers xs ys = true := by
  match xs with
  | [] => rw [eqMembers]
  | (name, x) :: xs =>
      rw [uniqueMembers, Bool.and_eq_true] at hu
      rw [constantsMembers, List.append_eq_nil_iff] at hc
      have hx : get ys name = some x := h (name, x) List.mem_cons_self
      have hxs := eqMembers_of xs ys
        (fun m hm => h m (List.mem_cons_of_mem _ hm)) hu.2 hc.2
      rw [eqMembers, hx, hxs, Bool.and_true]
      exact eq_self x hu.1 hc.1

end

/-! ## Sorting -/

theorem get_cons (m : String × Json) (members : Members) (name : String) :
    get (m :: members) name
      = (get members name).or (if name == m.1 then some m.2 else none) := by
  rw [get, List.reverse_cons, List.lookup_append]
  show _ = ((members.reverse.lookup name).or _)
  rw [List.lookup_cons]
  split <;> simp_all

/-- Two members of different names may change places. -/
theorem get_swap {a b : String × Json} (h : a.1 ≠ b.1) (members : Members)
    (name : String) :
    get (a :: b :: members) name = get (b :: a :: members) name := by
  rw [get_cons, get_cons, get_cons, get_cons]
  by_cases hname : name = a.1
  · have hb : (name == b.1) = false := by
      rw [hname]
      exact beq_false_of_ne h
    simp [hb]
  · have ha : (name == a.1) = false := beq_false_of_ne hname
    simp [ha]

theorem get_orderedInsert (m : String × Json) (members : Members)
    (name : String) :
    get (members.orderedInsert byName m) name = get (m :: members) name := by
  induction members with
  | nil => rfl
  | cons b members ih =>
      rw [List.orderedInsert_cons]
      split
      · rfl
      · next hnot =>
          have hne : b.1 ≠ m.1 := by
            intro hsame
            exact hnot (show m.1 ≤ b.1 by rw [hsame])
          rw [get_cons, ih, ← get_cons b, get_swap hne]

theorem get_insertionSort (members : Members) (name : String) :
    get (members.insertionSort byName) name = get members name := by
  induction members with
  | nil => rfl
  | cons m members ih =>
      rw [List.insertionSort_cons, get_orderedInsert, get_cons, ih,
        ← get_cons]

theorem lastOfEach_cons (m : String × Json) (members : Members) :
    lastOfEach (m :: members)
      = if m.1 ∈ members.map Prod.fst then lastOfEach members
        else m :: lastOfEach members :=
  rfl

theorem mem_lastOfEach (members : Members) (name : String) :
    name ∈ (lastOfEach members).map Prod.fst ↔ name ∈ members.map Prod.fst := by
  induction members with
  | nil => rfl
  | cons m members ih =>
      rw [lastOfEach_cons, List.map_cons, List.mem_cons]
      split
      · next hlater =>
          rw [ih]
          refine ⟨.inr, ?_⟩
          intro h
          rcases h with h | h
          · rw [h]
            exact hlater
          · exact h
      · rw [List.map_cons, List.mem_cons, ih]

theorem nodup_lastOfEach (members : Members) :
    ((lastOfEach members).map Prod.fst).Nodup := by
  induction members with
  | nil => exact List.nodup_nil
  | cons m members ih =>
      rw [lastOfEach_cons]
      split
      · exact ih
      · next hlast =>
          rw [List.map_cons, List.nodup_cons, mem_lastOfEach]
          exact ⟨hlast, ih⟩

theorem get_lastOfEach (members : Members) (name : String) :
    get (lastOfEach members) name = get members name := by
  induction members with
  | nil => rfl
  | cons m members ih =>
      rw [lastOfEach_cons, get_cons]
      split
      · next hlater =>
          obtain ⟨value, hvalue⟩ := get_isSome hlater
          by_cases hname : name = m.1
          · rw [ih, hname, hvalue]
            rfl
          · rw [ih, beq_false_of_ne hname, if_neg Bool.false_ne_true,
              Option.or_none]
      · rw [get_cons, ih]

theorem sortKeysMembers_eq (members : Members) :
    sortKeysMembers members = members.map fun m => (m.1, m.2.sortKeys) := by
  induction members with
  | nil => rfl
  | cons m members ih =>
      show (m.1, m.2.sortKeys) :: sortKeysMembers members = _
      rw [ih, List.map_cons]

theorem get_sortKeysMembers (members : Members) (name : String) :
    get (sortKeysMembers members) name
      = (get members name).map sortKeys := by
  rw [sortKeysMembers_eq]
  induction members with
  | nil => rfl
  | cons m members ih =>
      rw [List.map_cons, get_cons, get_cons, ih]
      cases get members name with
      | some value => rfl
      | none =>
          rw [Option.map_none, Option.none_or, Option.none_or]
          split <;> rfl

theorem keys_sortKeysMembers (members : Members) :
    (sortKeysMembers members).map Prod.fst = members.map Prod.fst := by
  rw [sortKeysMembers_eq, List.map_map]
  rfl

/-- The members of an object after sorting. -/
def sortedMembers (members : Members) : Members :=
  lastOfEach ((sortKeysMembers members).insertionSort byName)

theorem sortKeys_obj (members : Members) :
    sortKeys (.obj members) = .obj (sortedMembers members) :=
  rfl

theorem get_sortedMembers (members : Members) (name : String) :
    get (sortedMembers members) name = (get members name).map sortKeys := by
  rw [sortedMembers, get_lastOfEach, get_insertionSort, get_sortKeysMembers]

/-- What is left under a name is what the object had under it. -/
theorem get_of_mem_sortedMembers {members : Members} {m : String × Json}
    (h : m ∈ sortedMembers members) :
    ∃ value, get members m.1 = some value ∧ value.sortKeys = m.2 := by
  have hget : get (sortedMembers members) m.1 = some m.2 :=
    get_of_mem (nodup_lastOfEach _) h
  rw [get_sortedMembers] at hget
  exact Option.map_eq_some_iff.mp hget

theorem lastOfEach_sublist (members : Members) :
    (lastOfEach members).Sublist members := by
  induction members with
  | nil => exact List.Sublist.slnil
  | cons m members ih =>
      rw [lastOfEach_cons]
      split
      · exact ih.cons m
      · exact ih.cons_cons m

instance : Std.Total byName := ⟨fun a b => le_total a.1 b.1⟩

instance : IsTrans (String × Json) byName := ⟨fun _ _ _ h k => le_trans h k⟩

theorem pairwise_sortedMembers (members : Members) :
    (sortedMembers members).Pairwise byName :=
  (List.pairwise_insertionSort byName _).sublist (lastOfEach_sublist _)

theorem mem_sortedMembers {members : Members} {m : String × Json} :
    m ∈ sortedMembers members ↔
      (get members m.1).map sortKeys = some m.2 := by
  rw [← get_sortedMembers]
  exact ⟨get_of_mem (nodup_lastOfEach _), mem_of_get⟩

theorem nodup_sortedMembers (members : Members) :
    (sortedMembers members).Nodup :=
  List.Nodup.of_map _ (nodup_lastOfEach _)

/-- The members left after sorting are what the object has under each name. -/
theorem sortedMembers_ext {xs ys : Members}
    (h : ∀ name, (get xs name).map sortKeys = (get ys name).map sortKeys) :
    sortedMembers xs = sortedMembers ys := by
  have hperm : (sortedMembers xs).Perm (sortedMembers ys) := by
    apply (List.perm_ext_iff_of_nodup (nodup_sortedMembers xs)
      (nodup_sortedMembers ys)).mpr
    intro m
    rw [mem_sortedMembers, mem_sortedMembers, h]
  refine List.Perm.eq_of_pairwise ?_ (pairwise_sortedMembers xs)
    (pairwise_sortedMembers ys) hperm
  intro a b ha hb hab hba
  have hname : a.1 = b.1 := le_antisymm hab hba
  have hvalue := mem_sortedMembers.mp ha
  rw [h, hname, mem_sortedMembers.mp hb] at hvalue
  exact Prod.ext hname (Option.some.inj hvalue).symm

theorem hasExactly_sortedMembers {names : List String} {members : Members}
    (h : hasExactly names members = true) :
    hasExactly names (sortedMembers members) = true := by
  rw [hasExactly_iff] at h ⊢
  intro name
  have hperm : (((sortKeysMembers members).insertionSort byName).map
      Prod.fst).Perm (members.map Prod.fst) := by
    rw [← keys_sortKeysMembers members]
    exact (List.perm_insertionSort byName _).map Prod.fst
  rw [sortedMembers, mem_lastOfEach, hperm.mem_iff]
  exact h name

theorem sortKeysItems_eq (items : List Json) :
    sortKeysItems items = items.map sortKeys := by
  induction items with
  | nil => rfl
  | cons x xs ih =>
      show sortKeys x :: sortKeysItems xs = _
      rw [ih, List.map_cons]

theorem sortKeys_arr (items : List Json) :
    sortKeys (.arr items) = .arr (items.map sortKeys) := by
  rw [← sortKeysItems_eq]
  rfl

end Json

end SapioTee.Lib
