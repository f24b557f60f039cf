import Mathlib.Data.List.Perm.Lattice
import Mathlib.Data.List.Sort

/-!
# JSON values

Values of null, booleans, integers, strings, arrays and objects.  An object is the list
of its members in some order.  Two values are the same when reordering the members of
objects inside them, at any depth, makes one the other; for values whose keys are distinct
this is to be equal once every object is sorted.
-/

namespace VibeField

open List

inductive Json where
  | null
  | bool (b : Bool)
  | int (n : Int)
  | str (s : String)
  | arr (items : List Json)
  | obj (fields : List (String × Json))

namespace Json

/-! ## Every value inside a value -/

/-- Every integer meets `p`, and the keys of every object are distinct. -/
inductive Valid (p : Int → Prop) : Json → Prop
  | null : Valid p null
  | bool (b : Bool) : Valid p (bool b)
  | int (n : Int) (h : p n) : Valid p (int n)
  | str (s : String) : Valid p (str s)
  | arr (items : List Json) (h : ∀ v ∈ items, Valid p v) : Valid p (arr items)
  | obj (fields : List (String × Json)) (hkeys : (fields.map Prod.fst).Nodup)
      (h : ∀ e ∈ fields, Valid p e.2) : Valid p (obj fields)

mutual

def mapInts (f : Int → Int) : Json → Json
  | null => null
  | bool b => bool b
  | int n => int (f n)
  | str s => str s
  | arr items => arr (mapItems f items)
  | obj fields => obj (mapFields f fields)

def mapItems (f : Int → Int) : List Json → List Json
  | [] => []
  | v :: rest => mapInts f v :: mapItems f rest

def mapFields (f : Int → Int) : List (String × Json) → List (String × Json)
  | [] => []
  | (k, v) :: rest => (k, mapInts f v) :: mapFields f rest

end

theorem mapItems_eq (f : Int → Int) (items : List Json) :
    mapItems f items = items.map (mapInts f) := by
  induction items with
  | nil => rfl
  | cons v rest ih => rw [mapItems, ih, map_cons]

theorem mapFields_eq (f : Int → Int) (fields : List (String × Json)) :
    mapFields f fields = fields.map fun e => (e.1, mapInts f e.2) := by
  induction fields with
  | nil => rfl
  | cons e rest ih => rw [mapFields, ih, map_cons]

@[simp]
theorem mapInts_arr (f : Int → Int) (items : List Json) :
    mapInts f (arr items) = arr (items.map (mapInts f)) := by
  rw [mapInts, mapItems_eq]

@[simp]
theorem mapInts_obj (f : Int → Int) (fields : List (String × Json)) :
    mapInts f (obj fields) = obj (fields.map fun e => (e.1, mapInts f e.2)) := by
  rw [mapInts, mapFields_eq]

theorem keys_mapFields (g : Json → Json) (fields : List (String × Json)) :
    (fields.map fun e => (e.1, g e.2)).map Prod.fst = fields.map Prod.fst := by
  rw [map_map]
  rfl

theorem Valid.mapInts {p q : Int → Prop} {f : Int → Int} (hf : ∀ n, p n → q (f n)) {v : Json}
    (h : Valid p v) : Valid q (v.mapInts f) := by
  induction h with
  | null => exact .null
  | bool b => exact .bool b
  | int n hn => exact .int (f n) (hf n hn)
  | str s => exact .str s
  | arr items _ ih =>
    rw [mapInts_arr]
    refine .arr _ fun w hw => ?_
    obtain ⟨v, hv, rfl⟩ := mem_map.mp hw
    exact ih v hv
  | obj fields hkeys _ ih =>
    rw [mapInts_obj]
    refine .obj _ (by rw [keys_mapFields]; exact hkeys) fun w hw => ?_
    obtain ⟨e, he, rfl⟩ := mem_map.mp hw
    exact ih e he

theorem mapInts_mapInts {p : Int → Prop} (f g : Int → Int) {v : Json} (h : Valid p v) :
    (v.mapInts f).mapInts g = v.mapInts (g ∘ f) := by
  induction h with
  | null => rfl
  | bool b => rfl
  | int n hn => rfl
  | str s => rfl
  | arr items _ ih =>
    rw [mapInts_arr, mapInts_arr, mapInts_arr, map_map]
    exact congrArg arr (map_congr_left ih)
  | obj fields _ _ ih =>
    rw [mapInts_obj, mapInts_obj, mapInts_obj, map_map]
    congr 1
    refine map_congr_left fun e he => ?_
    exact congrArg (Prod.mk e.1) (ih e he)

theorem mapInts_of_fixed {p : Int → Prop} {f : Int → Int} (hf : ∀ n, p n → f n = n) {v : Json}
    (h : Valid p v) : v.mapInts f = v := by
  induction h with
  | null => rfl
  | bool b => rfl
  | int n hn => exact congrArg int (hf n hn)
  | str s => rfl
  | arr items _ ih =>
    rw [mapInts_arr, map_congr_left ih, map_id']
  | obj fields _ _ ih =>
    rw [mapInts_obj]
    congr 1
    calc (fields.map fun e => (e.1, mapInts f e.2))
        = fields.map fun e => e :=
          map_congr_left fun e he => congrArg (Prod.mk e.1) (ih e he)
      _ = fields := map_id' fields

/-! ## The order of members -/

/-- One value becomes the other by reordering the members of objects inside it. -/
inductive Same : Json → Json → Prop
  | refl (v : Json) : Same v v
  | trans {u v w : Json} : Same u v → Same v w → Same u w
  | members {fields fields' : List (String × Json)} :
      fields.Perm fields' → Same (obj fields) (obj fields')
  | item {v w : Json} (pre post : List Json) :
      Same v w → Same (arr (pre ++ v :: post)) (arr (pre ++ w :: post))
  | field {v w : Json} (k : String) (pre post : List (String × Json)) :
      Same v w → Same (obj (pre ++ (k, v) :: post)) (obj (pre ++ (k, w) :: post))

theorem Same.symm {v w : Json} (h : Same v w) : Same w v := by
  induction h with
  | refl v => exact .refl v
  | trans _ _ ih₁ ih₂ => exact ih₂.trans ih₁
  | members hperm => exact .members hperm.symm
  | item pre post _ ih => exact .item pre post ih
  | field k pre post _ ih => exact .field k pre post ih

theorem Same.items {f : Json → Json} (pre items : List Json) (h : ∀ v ∈ items, Same v (f v)) :
    Same (arr (pre ++ items)) (arr (pre ++ items.map f)) := by
  induction items generalizing pre with
  | nil => exact .refl _
  | cons v rest ih =>
    have hrest := ih (pre ++ [f v]) fun w hw => h w (mem_cons_of_mem v hw)
    rw [append_assoc, append_assoc] at hrest
    exact (Same.item pre rest (h v mem_cons_self)).trans hrest

theorem Same.fields {f : Json → Json} (pre fields : List (String × Json))
    (h : ∀ e ∈ fields, Same e.2 (f e.2)) :
    Same (obj (pre ++ fields)) (obj (pre ++ fields.map fun e => (e.1, f e.2))) := by
  induction fields generalizing pre with
  | nil => exact .refl _
  | cons e rest ih =>
    have hrest := ih (pre ++ [(e.1, f e.2)]) fun w hw => h w (mem_cons_of_mem e hw)
    rw [append_assoc, append_assoc] at hrest
    exact (Same.field e.1 pre rest (h e mem_cons_self)).trans hrest

theorem Same.mapInts (f : Int → Int) {v w : Json} (h : Same v w) :
    Same (v.mapInts f) (w.mapInts f) := by
  induction h with
  | refl v => exact .refl _
  | trans _ _ ih₁ ih₂ => exact ih₁.trans ih₂
  | members hperm =>
    rw [mapInts_obj, mapInts_obj]
    exact .members (hperm.map _)
  | item pre post _ ih =>
    rw [mapInts_arr, mapInts_arr, map_append, map_append, map_cons, map_cons]
    exact .item _ _ ih
  | field k pre post _ ih =>
    rw [mapInts_obj, mapInts_obj, map_append, map_append, map_cons, map_cons]
    exact .field k _ _ ih

/-! ## Sorted objects -/

section Sorting

variable (le : String → String → Bool)

def sortFields (fields : List (String × Json)) : List (String × Json) :=
  fields.mergeSort fun a b => le a.1 b.1

mutual

def sorted : Json → Json
  | null => null
  | bool b => bool b
  | int n => int n
  | str s => str s
  | arr items => arr (sortedItems items)
  | obj fields => obj (sortFields le (sortedFields fields))

def sortedItems : List Json → List Json
  | [] => []
  | v :: rest => sorted v :: sortedItems rest

def sortedFields : List (String × Json) → List (String × Json)
  | [] => []
  | (k, v) :: rest => (k, sorted v) :: sortedFields rest

end

theorem sortedItems_eq (items : List Json) : sortedItems le items = items.map (sorted le) := by
  induction items with
  | nil => rfl
  | cons v rest ih => rw [sortedItems, ih, map_cons]

theorem sortedFields_eq (fields : List (String × Json)) :
    sortedFields le fields = fields.map fun e => (e.1, sorted le e.2) := by
  induction fields with
  | nil => rfl
  | cons e rest ih => rw [sortedFields, ih, map_cons]

theorem sorted_arr (items : List Json) :
    sorted le (arr items) = arr (items.map (sorted le)) := by
  rw [sorted, sortedItems_eq]

theorem sorted_obj (fields : List (String × Json)) :
    sorted le (obj fields) =
      obj (sortFields le (fields.map fun e => (e.1, sorted le e.2))) := by
  rw [sorted, sortedFields_eq]

variable {p : Int → Prop}

theorem same_sorted {v : Json} (h : Valid p v) : Same v (sorted le v) := by
  induction h with
  | null => exact .refl _
  | bool b => exact .refl _
  | int n hn => exact .refl _
  | str s => exact .refl _
  | arr items _ ih =>
    rw [sorted_arr]
    exact Same.items [] items ih
  | obj fields _ _ ih =>
    rw [sorted_obj]
    refine (Same.fields (f := sorted le) [] fields ih).trans ?_
    exact .members (mergeSort_perm _ _).symm

/-- A total order on keys. -/
structure KeyOrder : Prop where
  total : ∀ a b, (le a b || le b a) = true
  trans : ∀ a b c, le a b = true → le b c = true → le a c = true
  antisymm : ∀ a b, le a b = true → le b a = true → a = b

variable {le}

theorem sortFields_perm (hle : KeyOrder le) {fields fields' : List (String × Json)}
    (hkeys : (fields.map Prod.fst).Nodup) (h : fields.Perm fields') :
    sortFields le fields = sortFields le fields' := by
  have hsorted : ∀ l : List (String × Json),
      (sortFields le l).Pairwise fun a b => le a.1 b.1 = true := fun l =>
    pairwise_mergeSort (fun a b c => hle.trans a.1 b.1 c.1) (fun a b => hle.total a.1 b.1) l
  have hperm : (sortFields le fields).Perm (sortFields le fields') :=
    (mergeSort_perm _ _).trans (h.trans (mergeSort_perm _ _).symm)
  refine hperm.eq_of_pairwise ?_ (hsorted fields) (hsorted fields')
  intro a b ha hb hab hba
  have ha' : a ∈ fields := (mergeSort_perm _ _).mem_iff.mp ha
  have hb' : b ∈ fields := h.mem_iff.mpr ((mergeSort_perm _ _).mem_iff.mp hb)
  exact inj_on_of_nodup_map hkeys ha' hb' (hle.antisymm _ _ hab hba)

theorem sorted_eq_of_same (hle : KeyOrder le) {v w : Json} (h : Same v w)
    (hv : Valid p v) : sorted le v = sorted le w ∧ Valid p w := by
  induction h with
  | refl v => exact ⟨rfl, hv⟩
  | trans _ _ ih₁ ih₂ =>
    obtain ⟨h₁, hv₁⟩ := ih₁ hv
    obtain ⟨h₂, hv₂⟩ := ih₂ hv₁
    exact ⟨h₁.trans h₂, hv₂⟩
  | members hperm =>
    cases hv with
    | obj _ hkeys hall =>
      constructor
      · rw [sorted_obj, sorted_obj, sortFields_perm hle _ (hperm.map _)]
        rw [keys_mapFields]
        exact hkeys
      · refine .obj _ ((hperm.map Prod.fst).nodup_iff.mp hkeys) fun e he => ?_
        exact hall e (hperm.mem_iff.mpr he)
  | item pre post _ ih =>
    cases hv with
    | arr _ hall =>
      obtain ⟨heq, hw⟩ := ih (hall _ (mem_append_right _ mem_cons_self))
      constructor
      · rw [sorted_arr, sorted_arr, map_append, map_append, map_cons,
          map_cons, heq]
      · refine .arr _ fun u hu => ?_
        rw [mem_append, mem_cons] at hu
        rcases hu with hu | rfl | hu
        · exact hall u (mem_append_left _ hu)
        · exact hw
        · exact hall u (mem_append_right _ (mem_cons_of_mem _ hu))
  | field k pre post _ ih =>
    cases hv with
    | obj _ hkeys hall =>
      obtain ⟨heq, hw⟩ := ih (hall (k, _) (mem_append_right _ mem_cons_self))
      constructor
      · rw [sorted_obj, sorted_obj, map_append, map_append, map_cons,
          map_cons, heq]
      · refine .obj _ (by simpa using hkeys) fun u hu => ?_
        rw [mem_append, mem_cons] at hu
        rcases hu with hu | rfl | hu
        · exact hall u (mem_append_left _ hu)
        · exact hw
        · exact hall u (mem_append_right _ (mem_cons_of_mem _ hu))

theorem same_iff_sorted (hle : KeyOrder le) {v w : Json} (hv : Valid p v)
    (hw : Valid p w) : Same v w ↔ sorted le v = sorted le w := by
  constructor
  · intro h
    exact (sorted_eq_of_same hle h hv).1
  · intro h
    have hsame := same_sorted le hv
    rw [h] at hsame
    exact hsame.trans (same_sorted le hw).symm

end Sorting

end Json
end VibeField
