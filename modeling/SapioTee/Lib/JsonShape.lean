import SapioTee.Lib.Json

/-!
# Shapes of values that equality tells apart

Python's `==` takes a truth value for the integer it is and an integer for a
fraction of its value, so two equal values need not be the same. A shape says
of every leaf which of the three it is. On values of one shape equality is
identity: what is printed with sorted names is the same, whatever the order
the members stood in.
-/

namespace SapioTee.Lib

inductive Shape where
  | text
  | integer
  | truth
  | items (shape : Shape)
  | fields (names : List (String × Shape))

namespace Shape

mutual

def fits : Shape → Json → Bool
  | .text, .str _ => true
  | .integer, .int _ => true
  | .truth, .bool _ => true
  | .items shape, .arr values => values.all shape.fits
  | .fields names, .obj members =>
      Json.hasExactly (names.map Prod.fst) members && fitsFields names members
  | _, _ => false

def fitsFields : List (String × Shape) → Members → Bool
  | [], _ => true
  | (name, shape) :: rest, members =>
      (match Json.get members name with
        | some value => shape.fits value
        | none => false) && fitsFields rest members

end

theorem fitsFields_iff {names : List (String × Shape)} {members : Members} :
    fitsFields names members = true ↔
      ∀ f ∈ names, ∃ value, Json.get members f.1 = some value ∧
        f.2.fits value = true := by
  induction names with
  | nil => simp [fitsFields]
  | cons f names ih =>
      rw [fitsFields, Bool.and_eq_true, ih, List.forall_mem_cons]
      cases Json.get members f.1 with
      | none => simp
      | some value => simp

end Shape

namespace Json

theorem eqMembers_get {xs ys : Members} (h : eqMembers xs ys = true)
    {name : String} {x : Json} (hx : (name, x) ∈ xs) :
    ∃ y, get ys name = some y ∧ eq x y = true := by
  induction xs with
  | nil => cases hx
  | cons m xs ih =>
      rw [eqMembers, Bool.and_eq_true] at h
      rcases List.mem_cons.mp hx with rfl | hx
      · cases hy : get ys name with
        | none =>
            rw [hy] at h
            cases h.1
        | some y =>
            rw [hy] at h
            exact ⟨y, rfl, h.1⟩
      · exact ih h.2 hx

/-- Equal objects are equal under each name. -/
theorem eq_obj_get {xs ys : Members} (h : eq (.obj xs) (.obj ys) = true)
    {name : String} {x : Json} (hx : get xs name = some x) :
    ∃ y, get ys name = some y ∧ eq x y = true := by
  rw [eq, Bool.and_eq_true] at h
  exact eqMembers_get h.2 (mem_of_get hx)

/-- An object without repeated names that equals one of certain names has
those names. -/
theorem hasExactly_of_eq {names : List String} {xs ys : Members}
    (hnames : names.Nodup) (hx : (xs.map Prod.fst).Nodup)
    (hy : hasExactly names ys = true) (h : eq (.obj xs) (.obj ys) = true) :
    hasExactly names xs = true := by
  rw [eq, Bool.and_eq_true] at h
  obtain ⟨hlength, hmembers⟩ := h
  have hy := hasExactly_iff.mp hy
  have hsub : xs.map Prod.fst ⊆ names := by
    intro name hname
    obtain ⟨m, hm, rfl⟩ := List.mem_map.mp hname
    obtain ⟨y, hget, -⟩ := eqMembers_get hmembers hm
    exact (hy m.1).mp (List.mem_map.mpr ⟨_, mem_of_get hget, rfl⟩)
  have hle : names.length ≤ (xs.map Prod.fst).length := by
    have hcover := (List.subperm_of_subset hnames
      fun name hname => (hy name).mpr hname).length_le
    rw [List.length_map] at hcover ⊢
    rw [beq_iff_eq.mp hlength]
    exact hcover
  have hperm := (List.subperm_of_subset hx hsub).perm_of_length_le hle
  exact hasExactly_iff.mpr fun name => hperm.mem_iff

theorem eq_str_right {x : Json} {s : String} (h : eq x (.str s) = true) :
    x = .str s := by
  cases x with
  | str a =>
      rw [eq] at h
      rw [eq_of_beq h]
  | _ => cases h

theorem eq_arr_items {xs ys : List Json} {P : Json → Prop}
    (hexact : ∀ x y, P x → P y → eq x y = true → x.sortKeys = y.sortKeys)
    (hx : ∀ x ∈ xs, P x) (hy : ∀ y ∈ ys, P y) (h : eqItems xs ys = true) :
    xs.map sortKeys = ys.map sortKeys := by
  induction xs generalizing ys with
  | nil =>
      cases ys with
      | nil => rfl
      | cons y ys => cases h
  | cons x xs ih =>
      cases ys with
      | nil => cases h
      | cons y ys =>
          rw [eqItems, Bool.and_eq_true] at h
          rw [List.map_cons, List.map_cons,
            hexact x y (hx x (by simp)) (hy y (by simp)) h.1,
            ih (fun v hv => hx v (by simp [hv]))
              (fun v hv => hy v (by simp [hv])) h.2]

/-- Two objects of the same names that agree under each of them. -/
theorem sortKeys_obj_eq {names : List String} {xs ys : Members}
    (hx : hasExactly names xs = true) (hy : hasExactly names ys = true)
    (h : ∀ name ∈ names,
      (get xs name).map sortKeys = (get ys name).map sortKeys) :
    (obj xs).sortKeys = (obj ys).sortKeys := by
  have hnone : ∀ {zs : Members} {name : String},
      hasExactly names zs = true → name ∉ names → get zs name = none := by
    intro zs name hz hname
    cases hget : get zs name with
    | none => rfl
    | some value =>
        exact absurd ((hasExactly_iff.mp hz name).mp
          (List.mem_map.mpr ⟨_, mem_of_get hget, rfl⟩)) hname
  rw [sortKeys_obj, sortKeys_obj]
  apply congrArg obj
  apply sortedMembers_ext
  intro name
  by_cases hname : name ∈ names
  · exact h name hname
  · rw [hnone hx hname, hnone hy hname]

end Json

namespace Shape

mutual

/-- Equal values of one shape are the same value. -/
theorem sortKeys_eq (shape : Shape) (x y : Json) (hx : shape.fits x = true)
    (hy : shape.fits y = true) (h : Json.eq x y = true) :
    x.sortKeys = y.sortKeys := by
  match shape, x, y with
  | .text, .str a, .str b =>
      rw [Json.eq] at h
      rw [eq_of_beq h]
  | .integer, .int a, .int b =>
      have hab : (a : Rat) = b := by simpa [Json.eq, Json.number] using h
      rw [Rat.intCast_inj.mp hab]
  | .truth, .bool a, .bool b =>
      cases a <;> cases b <;> first | rfl | cases h
  | .items shape, .arr xs, .arr ys =>
      rw [fits, List.all_eq_true] at hx hy
      rw [Json.eq] at h
      rw [Json.sortKeys_arr, Json.sortKeys_arr,
        Json.eq_arr_items (sortKeys_eq shape) hx hy h]
  | .fields names, .obj xs, .obj ys =>
      rw [fits, Bool.and_eq_true] at hx hy
      apply Json.sortKeys_obj_eq hx.1 hy.1
      intro name hname
      obtain ⟨f, hf, rfl⟩ := List.mem_map.mp hname
      obtain ⟨a, ha, hfa⟩ := fitsFields_iff.mp hx.2 f hf
      obtain ⟨b, hb, hfb⟩ := fitsFields_iff.mp hy.2 f hf
      obtain ⟨c, hc, hac⟩ := Json.eq_obj_get h ha
      rw [hb] at hc
      injection hc with hc
      rw [← hc] at hac
      rw [ha, hb, Option.map_some, Option.map_some,
        sortKeys_eq_fields names f hf a b hfa hfb hac]

theorem sortKeys_eq_fields (names : List (String × Shape)) :
    ∀ f ∈ names, ∀ x y, f.2.fits x = true → f.2.fits y = true →
      Json.eq x y = true → x.sortKeys = y.sortKeys := by
  match names with
  | [] =>
      intro f hf
      cases hf
  | (name, shape) :: rest =>
      intro f hf
      rcases List.mem_cons.mp hf with rfl | hf
      · exact sortKeys_eq shape
      · exact sortKeys_eq_fields rest f hf

end

end Shape

end SapioTee.Lib
