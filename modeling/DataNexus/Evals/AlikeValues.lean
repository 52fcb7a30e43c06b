/-
  DataNexus.Evals.AlikeValues — for which values equal sort keys mean strictly equal values.

  The canonical form writes an object as the list of its [key text, value] pairs. `Alike` says
  that two values are one but for that, and `sortKey_eq_iff` that exactly the alike values have
  one sort key. The two relations differ at places of two kinds:

  - `strictlyEqual_of_alike`: alike values are strictly equal unless an object stands in the one
    where the other has a list.
  - `alike_of_strictlyEqual`: strictly equal values are alike unless a zero has one sign in the
    one and the other sign in the other. Between two such sorts a value with -1 in the place of
    the zero (`exists_between`).

  `accepts_collections`: lists of some values are compared as collections exactly where neither
  happens among them.
-/

import DataNexus.Evals.KeyTexts

namespace DataNexus.Evals

open Lib Document

/-! ## What is written alike -/

section

variable (python : Python)

/-- What is written for a member of an object. -/
def pairOf (m : String × Document) : Document := .arr [.str ("str:" ++ python.strRepr m.1), m.2]

/-- The members of an object by the texts of their keys. -/
def byKey (ms : Fields) : Fields := sortBy (fun m => python.strRepr m.1) ms

/-- One value, but that an object may stand for the list of its pairs. -/
inductive Alike : Document → Document → Prop where
  | scalar {v : Document} (h : v.isContainer = false) : Alike v v
  | nil : Alike (.arr []) (.arr [])
  | cons {x y : Document} {xs ys : List Document} (hfirst : Alike x y) (hrest : Alike (.arr xs) (.arr ys)) :
    Alike (.arr (x :: xs)) (.arr (y :: ys))
  | left {ms : Fields} {y : Document} (h : Alike (.arr ((byKey python ms).map (pairOf python))) y) : Alike (.obj ms) y
  | right {x : Document} {ns : Fields} (h : Alike x (.arr ((byKey python ns).map (pairOf python)))) : Alike x (.obj ns)

end

section

variable {python : Python}

theorem canonicalItems_eq (items : List Document) : canonicalItems python items = items.map (canonical python) := by
  induction items with
  | nil => rfl
  | cons v items ih => rw [canonicalItems, ih, List.map_cons]

theorem canonicalMembers_eq (ms : Fields) : canonicalMembers python ms = ms.map fun m => (m.1, canonical python m.2) := by
  induction ms with
  | nil => rfl
  | cons m ms ih =>
    obtain ⟨key, v⟩ := m
    rw [canonicalMembers, ih, List.map_cons]

theorem canonical_scalar {v : Document} (h : v.isContainer = false) : canonical python v = v := by
  cases v <;> first | rfl | cases h

theorem canonical_arr (items : List Document) : canonical python (.arr items) = .arr (items.map (canonical python)) := by
  rw [canonical, canonicalItems_eq]

theorem canonical_pair (m : String × Document) : canonical python (pairOf python m) = pairOf python (m.1, canonical python m.2) := by
  rw [pairOf, canonical_arr]
  rfl

/-- An object is written as the list of its pairs. -/
theorem canonical_obj (ms : Fields) :
    canonical python (.obj ms) = canonical python (.arr ((byKey python ms).map (pairOf python))) := by
  have hobj : canonical python (.obj ms) = .arr ((sortBy (fun m => python.strRepr m.1) (canonicalMembers python ms)).map
      (pairOf python)) := by
    conv_lhs => rw [canonical]
    rfl
  rw [hobj, canonicalMembers_eq, sortBy_map, canonical_arr, List.map_map, List.map_map]
  rfl

theorem canonical_objectFree (v : Document) : ObjectFree (canonical python v) := by
  induction v using Document.induct with
  | scalar v hv =>
    rw [canonical_scalar hv]
    exact .scalar hv
  | arr items ih =>
    rw [canonical_arr]
    refine .arr fun w hw => ?_
    obtain ⟨v, hv, rfl⟩ := List.mem_map.mp hw
    exact ih v hv
  | obj ms ih =>
    rw [canonical_obj, canonical_arr]
    refine .arr fun w hw => ?_
    rw [List.map_map] at hw
    obtain ⟨m, hm, rfl⟩ := List.mem_map.mp hw
    rw [Function.comp_apply, canonical_pair]
    refine .arr fun w hw => ?_
    rw [List.mem_cons, List.mem_singleton] at hw
    rcases hw with rfl | rfl
    · exact .scalar rfl
    · exact ih m ((sortBy_perm _ ms).subset hm)

theorem canonical_of_objectFree {v : Document} (h : ObjectFree v) : canonical python v = v := by
  induction h with
  | scalar h => exact canonical_scalar h
  | arr _ ih => rw [canonical_arr, List.map_congr_left ih, List.map_id']

theorem Alike.canonical_eq {x y : Document} (h : Alike python x y) : canonical python x = canonical python y := by
  induction h with
  | scalar => rfl
  | nil => rfl
  | cons _ _ hfirst hrest =>
    rw [canonical_arr, canonical_arr, Document.arr.injEq] at hrest
    rw [canonical_arr, canonical_arr, List.map_cons, List.map_cons, hfirst, hrest]
  | left _ ih => rw [canonical_obj, ih]
  | right _ ih => rw [canonical_obj, ih]

/-- A value that is written as a list is a list, or an object and alike the list of its pairs. -/
theorem alike_listed {P : Document → Prop} {cs : List Document}
    (harr : ∀ xs, xs.map (canonical python) = cs → P (.arr xs))
    (hobj : ∀ ms, P (.arr ((byKey python ms).map (pairOf python))) → P (.obj ms)) {x : Document}
    (hx : canonical python x = .arr cs) : P x := by
  cases x with
  | arr xs =>
    rw [canonical_arr] at hx
    exact harr xs (Document.arr.inj hx)
  | obj ms =>
    rw [canonical_obj, canonical_arr] at hx
    exact hobj ms (harr _ (Document.arr.inj hx))
  | _ => cases hx

theorem alike_of_canonical {c : Document} (hc : ObjectFree c) :
    ∀ x y, canonical python x = c → canonical python y = c → Alike python x y := by
  induction hc with
  | @scalar c hc =>
    have hself : ∀ x, canonical python x = c → x = c := by
      intro x hx
      cases x with
      | arr | obj => cases hx; cases hc
      | _ => exact hx
    intro x y hx hy
    rw [hself x hx, hself y hy]
    exact .scalar hc
  | @arr cs hcs ih =>
    clear hcs
    have hlists : ∀ xs ys, xs.map (canonical python) = cs → ys.map (canonical python) = cs → Alike python (.arr xs) (.arr ys) := by
      induction cs with
      | nil =>
        intro xs ys hxs hys
        rw [List.map_eq_nil_iff.mp hxs, List.map_eq_nil_iff.mp hys]
        exact .nil
      | cons c cs ihcs =>
        intro xs ys hxs hys
        obtain ⟨x, xs, rfl, hx, hxs⟩ := List.map_eq_cons_iff.mp hxs
        obtain ⟨y, ys, rfl, hy, hys⟩ := List.map_eq_cons_iff.mp hys
        exact .cons (ih c List.mem_cons_self x y hx hy) (ihcs (fun c hc => ih c (List.mem_cons_of_mem _ hc)) xs ys hxs hys)
    intro x y hx hy
    refine alike_listed (P := fun x => Alike python x y) (fun xs hxs => ?_) (fun ms h => .left h) hx
    exact alike_listed (P := fun y => Alike python (.arr xs) y) (fun ys hys => hlists xs ys hxs hys) (fun ns h => .right h) hy

theorem alike_iff {x y : Document} : Alike python x y ↔ canonical python x = canonical python y :=
  ⟨Alike.canonical_eq, fun h => alike_of_canonical (canonical_objectFree y) x y h rfl⟩

/-- Two values have one sort key where they are alike. -/
theorem sortKey_eq_iff (hpython : python.Legible) {x y : Document} :
    sortKey python x = sortKey python y ↔ Alike python x y := by
  rw [alike_iff]
  exact ⟨dumps_injective hpython (canonical_objectFree x) (canonical_objectFree y), fun h => by rw [sortKey, sortKey, h]⟩

/-! ## Where two values differ -/

end

/-- Somewhere in the two values, at one place, stand values of this kind. -/
inductive Somewhere (R : Document → Document → Prop) : Document → Document → Prop where
  | here {x y : Document} (h : R x y) : Somewhere R x y
  | item {x y : Document} {xs ys : List Document} (hmem : (x, y) ∈ xs.zip ys) (h : Somewhere R x y) :
    Somewhere R (.arr xs) (.arr ys)
  | member {x y : Document} {ms ns : Fields} {key : String} (hx : ms.lookup key = some x) (hy : ns.lookup key = some y)
    (h : Somewhere R x y) : Somewhere R (.obj ms) (.obj ns)

/-- An object in the place of a list. -/
inductive ObjectBesideList : Document → Document → Prop where
  | left (ms : Fields) (ys : List Document) : ObjectBesideList (.obj ms) (.arr ys)
  | right (xs : List Document) (ns : Fields) : ObjectBesideList (.arr xs) (.obj ns)

/-- Zeros with opposite signs. -/
inductive OppositeZeros : Document → Document → Prop where
  | left (h : Number.negativeZero.IsFinite) (h' : Number.zero.IsFinite) :
    OppositeZeros (.float .negativeZero h) (.float .zero h')
  | right (h : Number.zero.IsFinite) (h' : Number.negativeZero.IsFinite) :
    OppositeZeros (.float .zero h) (.float .negativeZero h')

/-- Two lists are related item by item, two objects member by member. -/
structure Congruent (P : Document → Document → Prop) : Prop where
  arr : ∀ xs ys, P (.arr xs) (.arr ys) ↔ List.Forall₂ P xs ys
  obj : ∀ ms ns, (Document.obj ms).WellFormed → (Document.obj ns).WellFormed → (P (.obj ms) (.obj ns) ↔
    (∀ n ∈ ns, ∃ x, ms.lookup n.1 = some x) ∧ ∀ m ∈ ms, ∃ y, ns.lookup m.1 = some y ∧ P m.2 y)

/-- Neither two lists nor two objects. -/
def Unpaired : Document → Document → Prop
  | .arr _, .arr _ | .obj _, .obj _ => False
  | _, _ => True

/-- Of values related in one way, those not related in another differ at some place. -/
theorem differ_somewhere {P Q R : Document → Document → Prop} (hP : Congruent P) (hQ : Congruent Q)
    (hplaces : ∀ x y, R x y → Unpaired x y) (hunpaired : ∀ x y, Unpaired x y → P x y → (Q x y ↔ ¬ R x y)) (x : Document) :
    ∀ y, x.WellFormed → y.WellFormed → P x y → (Q x y ↔ ¬ Somewhere R x y) := by
  have hhere : ∀ x y, Unpaired x y → (Somewhere R x y ↔ R x y) := by
    intro x y hxy
    refine ⟨fun h => ?_, .here⟩
    cases h with
    | here h => exact h
    | item | member => exact hxy.elim
  have hother : ∀ x y, Unpaired x y → P x y → (Q x y ↔ ¬ Somewhere R x y) := by
    intro x y hxy h
    rw [hhere x y hxy]
    exact hunpaired x y hxy h
  induction x using Document.induct with
  | scalar x hx =>
    intro y _ _ h
    have hxy : Unpaired x y := by cases x <;> trivial
    exact hother x y hxy h
  | arr xs ih =>
    intro y hx hy h
    cases y with
    | arr ys =>
      have hall := (hP.arr xs ys).mp h
      rw [hQ.arr]
      constructor
      · rintro hitems (hR | @⟨x, y, _, _, hmem, hdiffer⟩)
        · exact hplaces _ _ hR
        · obtain ⟨hxmem, hymem⟩ := List.of_mem_zip hmem
          exact (ih x hxmem y (hx.items x hxmem) (hy.items y hymem) ((List.forall₂_iff_zip.mp hall).2 hmem)).mp
            ((List.forall₂_iff_zip.mp hitems).2 hmem) hdiffer
      · intro hnowhere
        refine List.forall₂_iff_zip.mpr ⟨hall.length_eq, fun {x y} hmem => ?_⟩
        obtain ⟨hxmem, hymem⟩ := List.of_mem_zip hmem
        exact (ih x hxmem y (hx.items x hxmem) (hy.items y hymem) ((List.forall₂_iff_zip.mp hall).2 hmem)).mpr
          fun hdiffer => hnowhere (.item hmem hdiffer)
    | _ => exact hother _ _ trivial h
  | obj ms ih =>
    intro y hx hy h
    cases y with
    | obj ns =>
      obtain ⟨hkeys, hall⟩ := (hP.obj ms ns hx hy).mp h
      have hmember : ∀ m ∈ ms, ∀ y, ns.lookup m.1 = some y → (Q m.2 y ↔ ¬ Somewhere R m.2 y) := by
        intro m hm y hlookup
        obtain ⟨y', hlookup', hPy⟩ := hall m hm
        obtain rfl := Option.some.inj (hlookup.symm.trans hlookup')
        exact ih m hm y (hx.members.2 m hm) (hy.members.2 _ (mem_of_lookup hlookup)) hPy
      rw [hQ.obj ms ns hx hy]
      constructor
      · rintro ⟨-, hmembers⟩ (hR | _ | @⟨x, y, _, _, key, hxkey, hykey, hdiffer⟩)
        · exact hplaces _ _ hR
        · obtain ⟨y', hlookup, hQy⟩ := hmembers _ (mem_of_lookup hxkey)
          obtain rfl := Option.some.inj (hykey.symm.trans hlookup)
          exact (hmember _ (mem_of_lookup hxkey) y hykey).mp hQy hdiffer
      · intro hnowhere
        refine ⟨hkeys, fun m hm => ?_⟩
        obtain ⟨y, hlookup, -⟩ := hall m hm
        refine ⟨y, hlookup, (hmember m hm y hlookup).mpr fun hdiffer => hnowhere ?_⟩
        exact .member (lookup_of_mem_nodup hx.members.1 hm) hlookup hdiffer
    | _ => exact hother _ _ trivial h

/-! ### The members of two objects side by side -/

section

variable {python : Python}

theorem keys_byKey_pairwise (ms : Fields) :
    ((byKey python ms).map (·.1)).Pairwise fun a b => python.strRepr a ≤ python.strRepr b :=
  List.pairwise_map.mpr (sortBy_pairwise _ ms)

/-- Two objects have the same keys, and related values, where their members in order do. -/
theorem members_aligned (hpython : python.Legible) {R : Document → Document → Prop} {ms ns : Fields}
    (hms : (ms.map (·.1)).Nodup) (hns : (ns.map (·.1)).Nodup) :
    List.Forall₂ (fun m n => m.1 = n.1 ∧ R m.2 n.2) (byKey python ms) (byKey python ns) ↔
      (∀ n ∈ ns, ∃ x, ms.lookup n.1 = some x) ∧ ∀ m ∈ ms, ∃ y, ns.lookup m.1 = some y ∧ R m.2 y := by
  have hmem : ∀ {fields : Fields} {m}, m ∈ byKey python fields ↔ m ∈ fields := (sortBy_perm _ _).mem_iff
  constructor
  · intro hall
    constructor
    · intro n hn
      obtain ⟨m, hm, hkey, -⟩ := mem_of_forall₂ hall (hmem.mpr hn)
      exact ⟨m.2, hkey ▸ lookup_of_mem_nodup hms (hmem.mp hm)⟩
    · intro m hm
      obtain ⟨n, hn, hkey, hvalue⟩ := mem_of_forall₂ hall.flip (hmem.mpr hm)
      exact ⟨n.2, hkey ▸ lookup_of_mem_nodup hns (hmem.mp hn), hvalue⟩
  · rintro ⟨hkeys, hvalues⟩
    have hperm : (ms.map (·.1)).Perm (ns.map (·.1)) := by
      rw [List.perm_ext_iff_of_nodup hms hns]
      intro key
      constructor
      · intro hkey
        obtain ⟨m, hm, rfl⟩ := List.mem_map.mp hkey
        obtain ⟨y, hy, -⟩ := hvalues m hm
        exact List.mem_map.mpr ⟨_, mem_of_lookup hy, rfl⟩
      · intro hkey
        obtain ⟨n, hn, rfl⟩ := List.mem_map.mp hkey
        obtain ⟨x, hx⟩ := hkeys n hn
        exact List.mem_map.mpr ⟨_, mem_of_lookup hx, rfl⟩
    have hsame : (byKey python ms).map (·.1) = (byKey python ns).map (·.1) := by
      refine List.Perm.eq_of_pairwise (fun _ _ _ _ hle hge => hpython.strings (le_antisymm hle hge))
        (keys_byKey_pairwise ms) (keys_byKey_pairwise ns) ?_
      exact (((sortBy_perm _ ms).map _).trans hperm).trans ((sortBy_perm _ ns).map _).symm
    rw [← List.forall₂_eq_eq_eq, List.forall₂_map_left_iff, List.forall₂_map_right_iff] at hsame
    refine List.forall₂_iff_zip.mpr ⟨hsame.length_eq, fun {m n} hmn => ?_⟩
    have hkey := (List.forall₂_iff_zip.mp hsame).2 hmn
    obtain ⟨y, hy, hvalue⟩ := hvalues m (hmem.mp (List.of_mem_zip hmn).1)
    have hlookup := lookup_of_mem_nodup hns (hmem.mp (List.of_mem_zip hmn).2)
    rw [← hkey, hy] at hlookup
    exact ⟨hkey, Option.some.inj hlookup ▸ hvalue⟩

/-! ### Strictly equal values and alike ones -/

theorem strictEqual_congruent : Congruent StrictlyEqual where
  arr _ _ := strictEqual_arr
  obj _ _ _ _ := strictEqual_obj

theorem alike_arr {xs ys : List Document} : Alike python (.arr xs) (.arr ys) ↔ List.Forall₂ (Alike python) xs ys := by
  rw [alike_iff, canonical_arr, canonical_arr, Document.arr.injEq, ← List.forall₂_eq_eq_eq, List.forall₂_map_left_iff,
    List.forall₂_map_right_iff]
  exact ⟨fun h => h.imp fun _ _ => alike_iff.mpr, fun h => h.imp fun _ _ => alike_iff.mp⟩

theorem alike_pair (hpython : python.Legible) {m n : String × Document} :
    Alike python (pairOf python m) (pairOf python n) ↔ m.1 = n.1 ∧ Alike python m.2 n.2 := by
  rw [alike_iff, canonical_pair, canonical_pair, alike_iff, pairOf, pairOf, Document.arr.injEq, List.cons.injEq,
    List.cons.injEq, Document.str.injEq, String.append_right_inj, hpython.strings.eq_iff]
  simp

theorem alike_congruent (hpython : python.Legible) : Congruent (Alike python) where
  arr _ _ := alike_arr
  obj ms ns hms hns := by
    rw [← members_aligned hpython hms.members.1 hns.members.1, alike_iff, canonical_obj, canonical_obj, ← alike_iff, alike_arr,
      List.forall₂_map_left_iff, List.forall₂_map_right_iff]
    exact ⟨fun h => h.imp fun _ _ => (alike_pair hpython).mp, fun h => h.imp fun _ _ => (alike_pair hpython).mpr⟩

theorem alike_scalar {x y : Document} (hx : x.isContainer = false) : Alike python x y ↔ x = y := by
  rw [alike_iff, canonical_scalar hx]
  constructor
  · intro h
    cases y with
    | arr | obj => rw [h] at hx; cases hx
    | _ => exact h
  · rintro rfl
    exact (canonical_scalar hx).symm

/-- Alike values are strictly equal, but for an object in the place of a list. -/
theorem strictlyEqual_of_alike (hpython : python.Legible) {x y : Document} (hx : x.WellFormed) (hy : y.WellFormed)
    (h : Alike python x y) : StrictlyEqual x y ↔ ¬ Somewhere ObjectBesideList x y := by
  refine differ_somewhere (alike_congruent hpython) strictEqual_congruent (fun x y h => ?_) (fun x y hxy h => ?_) x y hx hy h
  · cases h <;> trivial
  · have hscalar : ∀ v : Document, v.isContainer = false → (StrictlyEqual v v ↔ ¬ ObjectBesideList v v) := by
      intro v hv
      refine ⟨fun _ hplace => ?_, fun _ => strictEqual_refl (.scalar hv)⟩
      cases hplace
    have hmixed : ∀ x y, ObjectBesideList x y → (StrictlyEqual x y ↔ ¬ ObjectBesideList x y) := by
      intro x y hplace
      refine ⟨fun hequal => ?_, fun hnot => absurd hplace hnot⟩
      cases hplace <;> exact absurd hequal (by simp [StrictlyEqual, strictEqual])
    cases x with
    | arr xs =>
      cases y with
      | arr ys => exact hxy.elim
      | obj ns => exact hmixed _ _ (.right xs ns)
      | _ => exact absurd (alike_iff.mp h) (by rw [canonical_arr]; exact Document.noConfusion)
    | obj ms =>
      cases y with
      | arr ys => exact hmixed _ _ (.left ms ys)
      | obj ns => exact hxy.elim
      | _ => exact absurd (alike_iff.mp h) (by rw [canonical_obj, canonical_arr]; exact Document.noConfusion)
    | _ =>
      obtain rfl := (alike_scalar rfl).mp h
      exact hscalar _ rfl

/-- Two floats are one number: they are one float, or zeros. -/
theorem number_eq {m n : Number} (hm : m.IsFinite) (hn : n.IsFinite) (h : number m = number n) :
    m = n ∨ OppositeZeros (.float m hm) (.float n hn) := by
  cases m with
  | infinite => exact hm.elim
  | negativeZero =>
    cases n with
    | infinite => exact hn.elim
    | negativeZero => exact .inl rfl
    | finite value isDouble =>
      obtain rfl : 0 = value := h
      exact .inr (.left _ _)
  | finite value isDouble =>
    cases n with
    | infinite => exact hn.elim
    | negativeZero =>
      obtain rfl : value = 0 := h
      exact .inr (.right _ _)
    | finite value' isDouble' =>
      obtain rfl : value = value' := h
      exact .inl rfl

theorem eq_of_strictlyEqual {x y : Document} (hx : x.isContainer = false) (hfloat : ∀ m hm, x ≠ .float m hm)
    (h : StrictlyEqual x y) : x = y := by
  cases x with
  | float m hm => exact absurd rfl (hfloat m hm)
  | _ => cases y <;> simp_all [StrictlyEqual, strictEqual, isContainer]

theorem strictlyEqual_float {m n : Number} (hm : m.IsFinite) (hn : n.IsFinite) :
    StrictlyEqual (.float m hm) (.float n hn) ↔ number m = number n := by
  simp [StrictlyEqual, strictEqual]

/-- Strictly equal values are alike, but for a zero with another sign. -/
theorem alike_of_strictlyEqual (hpython : python.Legible) {x y : Document} (hx : x.WellFormed) (hy : y.WellFormed)
    (h : StrictlyEqual x y) : Alike python x y ↔ ¬ Somewhere OppositeZeros x y := by
  refine differ_somewhere strictEqual_congruent (alike_congruent hpython) (fun x y h => ?_) (fun x y hxy h => ?_) x y hx hy h
  · cases h <;> trivial
  · have hself : ∀ v, v.isContainer = false → (Alike python v v ↔ ¬ OppositeZeros v v) := by
      intro v hv
      refine ⟨fun _ hplace => ?_, fun _ => .scalar hv⟩
      cases hplace
    cases x with
    | float m hm =>
      cases y with
      | float n hn =>
        rw [alike_scalar rfl, Document.float.injEq]
        constructor
        · rintro rfl hplace
          cases hplace
        · exact (number_eq hm hn ((strictlyEqual_float hm hn).mp h)).resolve_right
      | _ => exact absurd h (by simp [StrictlyEqual, strictEqual])
    | arr xs =>
      cases y with
      | arr ys => exact hxy.elim
      | _ => exact absurd h (by simp [StrictlyEqual, strictEqual])
    | obj ms =>
      cases y with
      | obj ns => exact hxy.elim
      | _ => exact absurd h (by simp [StrictlyEqual, strictEqual])
    | _ =>
      obtain rfl := eq_of_strictlyEqual rfl (by simp) h
      exact hself _ rfl

/-! ## Between two zeros -/

/-- The texts go on from one place with a negative zero, a zero and minus one. -/
def Straddled (python : Python) (x y z : Document) : Prop :=
  ∃ before after after' after'', (dumps python x).toList = before ++ '-' :: '0' :: after ∧
    (dumps python y).toList = before ++ '0' :: after' ∧ (dumps python z).toList = before ++ '-' :: '1' :: after''

theorem Straddled.lt {x y z : Document} (h : Straddled python x y z) :
    dumps python x < dumps python z ∧ dumps python z < dumps python y := by
  obtain ⟨before, after, after', after'', hx, hy, hz⟩ := h
  have hx' : dumps python x = String.ofList ((before ++ ['-']) ++ '0' :: after) := by
    rw [← String.toList_inj, String.toList_ofList, hx, List.append_assoc]
    rfl
  have hz' : dumps python z = String.ofList ((before ++ ['-']) ++ '1' :: after'') := by
    rw [← String.toList_inj, String.toList_ofList, hz, List.append_assoc]
    rfl
  constructor
  · rw [hx', hz']
    exact lt_of_split (by decide)
  · rw [← String.toList_inj.mp ((String.toList_ofList).trans hy.symm), ← String.toList_inj.mp ((String.toList_ofList).trans hz.symm)]
    exact lt_of_split (by decide)

/-- The text of a list up to an item. -/
theorem dumps_split (python : Python) (before : List Document) : ∃ text : List Char, ∀ (x : Document) (after : List Document),
    (dumps python (.arr (before ++ x :: after))).toList = text ++ (dumps python x).toList ++ afterItem python after := by
  have hitems : ∃ text : List Char, ∀ (x : Document) (after : List Document),
      afterBracket python (before ++ x :: after) = text ++ (dumps python x).toList ++ afterItem python after := by
    induction before with
    | nil => exact ⟨[], fun _ _ => rfl⟩
    | cons v before ih =>
      obtain ⟨text, htext⟩ := ih
      refine ⟨(dumps python v).toList ++ ',' :: ' ' :: text, fun x after => ?_⟩
      have hrest : afterItem python (before ++ x :: after) = ',' :: ' ' :: afterBracket python (before ++ x :: after) := by
        cases before <;> rfl
      rw [List.cons_append, afterBracket, hrest, htext]
      simp
  obtain ⟨text, htext⟩ := hitems
  refine ⟨'[' :: text, fun x after => ?_⟩
  rw [dumps_arr, htext]
  rfl

/-- Two lists that are not one differ first at some item. -/
theorem exists_first_difference {R : Document → Document → Prop} {xs ys : List Document} (h : List.Forall₂ R xs ys) (hne : xs ≠ ys) :
    ∃ before x y after after', xs = before ++ x :: after ∧ ys = before ++ y :: after' ∧ R x y ∧ x ≠ y := by
  induction h with
  | nil => exact absurd rfl hne
  | @cons x y xs ys hxy _ ih =>
    by_cases hfirst : x = y
    · subst hfirst
      obtain ⟨before, x', y', after, after', rfl, rfl, hR, hne'⟩ := ih fun heq => hne (by rw [heq])
      exact ⟨x :: before, x', y', after, after', rfl, rfl, hR, hne'⟩
    · exact ⟨[], x, y, xs, ys, rfl, rfl, hxy, hfirst⟩

/-- Between two values that differ in the sign of a zero lies one with another number there. -/
theorem exists_straddled (hpython : python.Legible) {x : Document} (hx : ObjectFree x) : ∀ y, ObjectFree y → StrictlyEqual x y →
    x ≠ y → ∃ z, ObjectFree z ∧ ¬ StrictlyEqual x z ∧ (Straddled python x y z ∨ Straddled python y x z) := by
  induction hx with
  | @scalar x hx =>
    intro y _ hequal hne
    have hfloat : ∃ m hm, x = .float m hm := by
      by_contra hnot
      exact hne (eq_of_strictlyEqual hx (fun m hm heq => hnot ⟨m, hm, heq⟩) hequal)
    obtain ⟨m, hm, rfl⟩ := hfloat
    cases y with
    | float n hn =>
      refine ⟨.int (-1), .scalar rfl, by simp [StrictlyEqual, strictEqual], ?_⟩
      have hzero : ∀ h, (dumps python (.float .zero h)).toList = [] ++ '0' :: ['.', '0'] := by
        intro h
        rw [dumps, hpython.zero]
        decide
      have hnegative : ∀ h, (dumps python (.float .negativeZero h)).toList = [] ++ '-' :: '0' :: ['.', '0'] := by
        intro h
        rw [dumps, hpython.negativeZero]
        decide
      have hminus : (dumps python (.int (-1))).toList = [] ++ '-' :: '1' :: [] := by
        rw [dumps]
        decide
      rcases number_eq hm hn ((strictlyEqual_float hm hn).mp hequal) with rfl | hzeros
      · exact absurd rfl hne
      · cases hzeros with
        | left h h' => exact .inl ⟨[], _, _, _, hnegative h, hzero h', hminus⟩
        | right h h' => exact .inr ⟨[], _, _, _, hnegative h', hzero h, hminus⟩
    | _ => exact absurd hequal (by simp [StrictlyEqual, strictEqual])
  | @arr xs hxs ih =>
    intro y hy hequal hne
    cases y with
    | arr ys =>
      obtain ⟨before, x, y, after, after', rfl, rfl, hxy, hne'⟩ :=
        exists_first_difference (strictEqual_arr.mp hequal) fun heq => hne (by rw [heq])
      have hxmem : x ∈ before ++ x :: after := List.mem_append_right _ List.mem_cons_self
      obtain ⟨z, hz, hxz, hbetween⟩ := ih x hxmem y (hy.items y (List.mem_append_right _ List.mem_cons_self)) hxy hne'
      obtain ⟨text, htext⟩ := dumps_split python before
      have hlists : ∀ {x y after after'}, Straddled python x y z →
          Straddled python (.arr (before ++ x :: after)) (.arr (before ++ y :: after')) (.arr (before ++ z :: [])) := by
        rintro x y after after' ⟨first, rest, rest', rest'', hx, hy, hz⟩
        refine ⟨text ++ first, rest ++ afterItem python after, rest' ++ afterItem python after', rest'' ++ afterItem python [],
          ?_, ?_, ?_⟩ <;> simp [htext, hx, hy, hz]
      refine ⟨.arr (before ++ z :: []), .arr fun v hv => ?_, fun hall => ?_, hbetween.imp hlists hlists⟩
      · rcases List.mem_append.mp hv with hv | hv
        · exact hxs v (List.mem_append_left _ hv)
        · rw [List.mem_singleton.mp hv]
          exact hz
      · have hdrop := List.forall₂_drop before.length (strictEqual_arr.mp hall)
        rw [List.drop_left, List.drop_left] at hdrop
        exact hxz (List.forall₂_cons.mp hdrop).1
    | _ => exact absurd hequal (by simp [StrictlyEqual, strictEqual])

/-- The canonical forms of strictly equal values are strictly equal. -/
theorem strictlyEqual_canonical (hpython : python.Legible) (x : Document) : ∀ y, x.WellFormed → y.WellFormed → StrictlyEqual x y →
    StrictlyEqual (canonical python x) (canonical python y) := by
  induction x using Document.induct with
  | scalar x hx =>
    intro y _ _ h
    have hy : y.isContainer = false := by
      cases x <;> cases y <;> simp_all [StrictlyEqual, strictEqual, isContainer]
    rwa [canonical_scalar hx, canonical_scalar hy]
  | arr xs ih =>
    intro y hx hy h
    cases y with
    | arr ys =>
      rw [canonical_arr, canonical_arr]
      refine strictEqual_arr.mpr (List.forall₂_map_right_iff.mpr (List.forall₂_map_left_iff.mpr ?_))
      have hall := strictEqual_arr.mp h
      refine List.forall₂_iff_zip.mpr ⟨hall.length_eq, fun {x y} hxy => ?_⟩
      obtain ⟨hxmem, hymem⟩ := List.of_mem_zip hxy
      exact ih x hxmem y (hx.items x hxmem) (hy.items y hymem) ((List.forall₂_iff_zip.mp hall).2 hxy)
    | _ => exact absurd h (by simp [StrictlyEqual, strictEqual])
  | obj ms ih =>
    intro y hx hy h
    cases y with
    | obj ns =>
      have hall := (members_aligned hpython hx.members.1 hy.members.1).mpr ((strictEqual_congruent.obj ms ns hx hy).mp h)
      rw [canonical_obj, canonical_obj, canonical_arr, canonical_arr, List.map_map, List.map_map]
      refine strictEqual_arr.mpr (List.forall₂_map_right_iff.mpr (List.forall₂_map_left_iff.mpr ?_))
      refine List.forall₂_iff_zip.mpr ⟨hall.length_eq, fun {m n} hmn => ?_⟩
      obtain ⟨hm, hn⟩ := List.of_mem_zip hmn
      have hm := (sortBy_perm _ ms).subset hm
      have hn := (sortBy_perm _ ns).subset hn
      obtain ⟨hkey, hvalue⟩ := (List.forall₂_iff_zip.mp hall).2 hmn
      rw [Function.comp_apply, Function.comp_apply, canonical_pair, canonical_pair]
      refine strictEqual_arr.mpr (.cons ?_ (.cons ?_ .nil))
      · rw [hkey]
        exact strictEqual_refl (.scalar rfl)
      · exact ih m hm n.2 (hx.members.2 m hm) (hy.members.2 n hn) hvalue
    | _ => exact absurd h (by simp [StrictlyEqual, strictEqual])

/-- Between strictly equal values that are not alike sorts one that is not strictly equal to them. -/
theorem exists_between (hpython : python.Legible) {x y : Document} (hx : x.WellFormed) (hy : y.WellFormed)
    (h : StrictlyEqual x y) (hne : ¬ Alike python x y) : ∃ z, z.WellFormed ∧ ¬ StrictlyEqual x z ∧
      ((sortKey python x < sortKey python z ∧ sortKey python z < sortKey python y) ∨
        (sortKey python y < sortKey python z ∧ sortKey python z < sortKey python x)) := by
  obtain ⟨z, hz, hxz, hbetween⟩ := exists_straddled hpython (canonical_objectFree x) (canonical python y) (canonical_objectFree y)
    (strictlyEqual_canonical hpython x y hx hy h) fun heq => hne (alike_iff.mpr heq)
  have hself : canonical python z = z := canonical_of_objectFree hz
  refine ⟨z, hz.wellFormed, fun hequal => hxz ?_, ?_⟩
  · rw [← hself]
    exact strictlyEqual_canonical hpython x z hx hz.wellFormed hequal
  · unfold sortKey
    rw [hself]
    exact hbetween.imp Straddled.lt Straddled.lt

/-! ## Values compared as collections -/

/-- No two of the values are alike with an object in the one where the other has a list. -/
def ObjectsApart (python : Python) (V : Set Document) : Prop :=
  ∀ x ∈ V, ∀ y ∈ V, Alike python x y → ¬ Somewhere ObjectBesideList x y

/-- No two of the values are strictly equal with opposite signs of a zero. -/
def ZerosAlike (V : Set Document) : Prop := ∀ x ∈ V, ∀ y ∈ V, StrictlyEqual x y → ¬ Somewhere OppositeZeros x y

theorem keyDetermines_iff (hpython : python.Legible) {xs : List Document} (hwell : ∀ x ∈ xs, x.WellFormed) :
    KeyDetermines python xs ↔ ObjectsApart python {v | v ∈ xs} := by
  refine forall₂_congr fun x hx => forall₂_congr fun y hy => ?_
  rw [sortKey_eq_iff hpython]
  exact forall_congr' fun h => strictlyEqual_of_alike hpython (hwell x hx) (hwell y hy) h

/-- The values of a list are not alike, and those strictly equal are. -/
theorem apart_of_distinct (hpython : python.Legible) {xs : List Document} (hwell : ∀ x ∈ xs, x.WellFormed)
    (hkeys : (xs.map (sortKey python)).Nodup) (hequal : ∀ x ∈ xs, ∀ y ∈ xs, strictEqual x y = true → sortKey python x = sortKey python y) :
    ObjectsApart python {v | v ∈ xs} ∧ ZerosAlike {v | v ∈ xs} := by
  constructor
  · intro x hx y hy halike
    obtain rfl := List.inj_on_of_nodup_map hkeys hx hy ((sortKey_eq_iff hpython).mpr halike)
    exact (strictlyEqual_of_alike hpython (hwell x hx) (hwell x hx) halike).mp (strictEqual_refl (hwell x hx))
  · intro x hx y hy hxy
    exact (alike_of_strictlyEqual hpython (hwell x hx) (hwell y hy) hxy).mp ((sortKey_eq_iff hpython).mp (hequal x hx y hy hxy))

theorem permUpTo_of_accepts {xs ys : List Document} (h : accepts python true (.arr xs) (.arr ys) = true) :
    PermUpTo StrictlyEqual xs ys := permUpTo_of_sorted (sortKey python) ((accepts_iff python).mp h)

/-- Lists of such values are compared as collections, also where they go on alike. -/
theorem accepts_of_permUpTo (hpython : python.Legible) {V : Set Document} (hV : ∀ v ∈ V, v.WellFormed)
    (hobjects : ObjectsApart python V) (hzeros : ZerosAlike V) {xs ys rest : List Document} (hxs : ∀ v ∈ xs, v ∈ V)
    (hys : ∀ v ∈ ys, v ∈ V) (hrest : ∀ v ∈ rest, v.WellFormed) (h : PermUpTo StrictlyEqual (xs ++ rest) (ys ++ rest)) :
    accepts python true (.arr (xs ++ rest)) (.arr (ys ++ rest)) = true := by
  have hequiv : EquivalenceOn StrictlyEqual {v : Document | v.WellFormed} := strictEqual_equivalence fun _ hv => hv
  have hperm := h.cancel hequiv (fun x hx => hV x (hxs x hx)) (fun y hy => hV y (hys y hy)) hrest
  have hkeys : (xs.map (sortKey python)).Perm (ys.map (sortKey python)) := by
    refine hperm.map fun x hx y hy hequal => ?_
    rw [sortKey_eq_iff hpython, alike_of_strictlyEqual hpython (hV x (hxs x hx)) (hV y (hys y hy)) hequal]
    exact hzeros x (hxs x hx) y (hys y hy) hequal
  refine (accepts_iff python).mpr (sorted_of_keys (sortKey python) hkeys (fun x hx y hy hkey => ?_)
    fun v hv => strictEqual_refl (hrest v hv))
  have halike := (sortKey_eq_iff hpython).mp hkey
  exact (strictlyEqual_of_alike hpython (hV x (hxs x hx)) (hV y (hys y hy)) halike).mpr
    (hobjects x (hxs x hx) y (hys y hy) halike)

/-- Strictly equal values with opposite zeros are told apart in the company of a third one. -/
theorem refused_of_zeros (hpython : python.Legible) {x y : Document} (hx : x.WellFormed) (hy : y.WellFormed)
    (h : StrictlyEqual x y) (hzeros : Somewhere OppositeZeros x y) :
    ∃ z, z.WellFormed ∧ accepts python true (.arr ([x] ++ [z])) (.arr ([y] ++ [z])) = false := by
  obtain ⟨z, hz, hxz, hbetween⟩ := exists_between hpython hx hy h fun halike =>
    (alike_of_strictlyEqual hpython hx hy h).mp halike hzeros
  refine ⟨z, hz, Bool.eq_false_iff.mpr fun haccepts => hxz ?_⟩
  have hsorted := (accepts_iff python).mp haccepts
  rcases hbetween with ⟨hlow, hhigh⟩ | ⟨hlow, hhigh⟩
  · rw [List.singleton_append, List.singleton_append, sortBy_pair _ hlow.le, sortBy_pair_swap _ hhigh] at hsorted
    exact (List.forall₂_cons.mp hsorted).1
  · rw [List.singleton_append, List.singleton_append, sortBy_pair_swap _ hhigh, sortBy_pair _ hlow.le] at hsorted
    exact strictEqual_trans x h (strictEqual_symm hy (List.forall₂_cons.mp hsorted).1)

/-- Lists of some values, whatever they both go on with, are compared as collections exactly where
    no object stands beside a list and no zero beside one with another sign. -/
theorem accepts_collections (hpython : python.Legible) {V : Set Document} (hV : ∀ v ∈ V, v.WellFormed) :
    (∀ expected actual rest : List Document, (∀ v ∈ expected, v ∈ V) → (∀ v ∈ actual, v ∈ V) → (∀ v ∈ rest, v.WellFormed) →
      (accepts python true (.arr (expected ++ rest)) (.arr (actual ++ rest)) = true ↔
        PermUpTo StrictlyEqual (expected ++ rest) (actual ++ rest))) ↔
    ObjectsApart python V ∧ ZerosAlike V := by
  constructor
  · intro hright
    refine ⟨fun x hx y hy halike hplace => ?_, fun x hx y hy hequal hplace => ?_⟩
    · have hpair : ∀ v ∈ [x, y], v ∈ V := by simp [hx, hy]
      have hpair' : ∀ v ∈ [y, x], v ∈ V := by simp [hx, hy]
      have hperm : PermUpTo StrictlyEqual ([x, y] ++ []) ([y, x] ++ []) :=
        ⟨[x, y], .swap y x [], List.forall₂_same.mpr fun v hv => strictEqual_refl (hV v (hpair v hv))⟩
      have haccepts := (hright [x, y] [y, x] [] hpair hpair' (by simp)).mpr hperm
      have hequal := accepts_swapped python ((sortKey_eq_iff hpython).mpr halike) haccepts
      exact (strictlyEqual_of_alike hpython (hV x hx) (hV y hy) halike).mp hequal hplace
    · obtain ⟨z, hz, hrefused⟩ := refused_of_zeros hpython (hV x hx) (hV y hy) hequal hplace
      have hperm : PermUpTo StrictlyEqual ([x] ++ [z]) ([y] ++ [z]) :=
        ⟨[y] ++ [z], .refl _, .cons hequal (.cons (strictEqual_refl hz) .nil)⟩
      have haccepts := (hright [x] [y] [z] (by simp [hx]) (by simp [hy]) (by simpa using hz)).mpr hperm
      rw [hrefused] at haccepts
      cases haccepts
  · rintro ⟨hobjects, hzeros⟩ expected actual rest hexpected hactual hrest
    exact ⟨permUpTo_of_accepts, accepts_of_permUpTo hpython hV hobjects hzeros hexpected hactual hrest⟩

end

end DataNexus.Evals
