import ScriptHost.Lua.Heap

/-! # What is found in a table

A table is the finite map that its history of stores makes: a store changes what is found under its own key, and nothing
else, whether the key has a place in the row, among the nodes, or none yet. In the last case the table may take another
shape, which shows nowhere. -/

namespace ScriptHost.Lua

namespace Value

theorem cmp_int_eq_iff {n : Int64} {k : Value} : cmp (.int n) k = .eq ↔ k = .int n := by
  constructor
  · intro h
    cases k with
    | int m => rw [Std.LawfulEqOrd.eq_of_compare (h : compare n m = .eq)]
    | _ => nomatch h
  · rintro rfl
    exact Std.ReflCmp.compare_self

theorem cmp_str_eq_iff {s : Bytes} {k : Value} : cmp (.str s) k = .eq ↔ k = .str s := by
  constructor
  · intro h
    cases k with
    | str s' =>
      have hbytes : compare s.data.toList s'.data.toList = .eq := (Bytes.cmp_eq s s').symm.trans h
      have hlists := Std.LawfulEqOrd.eq_of_compare hbytes
      rw [ByteArray.ext (Array.toList_inj.mp hlists)]
    | _ => nomatch h
  · rintro rfl
    exact Std.ReflCmp.compare_self

theorem placeIn?_eq_some_iff {size i : Nat} {k : Value} :
    k.placeIn? size = some i ↔ ∃ n : Int64, k = .int n ∧ n.toInt = i + 1 ∧ i < size := by
  cases k with
  | int n =>
    simp only [placeIn?]
    constructor
    · intro h
      split at h
      · next hn =>
        have hi := Option.some.inj h
        exact ⟨n, rfl, by omega, by omega⟩
      · cases h
    · rintro ⟨m, ⟨⟩, hm, hi⟩
      rw [if_pos ⟨by omega, by omega⟩]
      exact congrArg some (by omega)
  | _ => simp [placeIn?]

theorem placeIn?_congr {size : Nat} {k k' : Value} (h : k.cmp k' = .eq) : k.placeIn? size = k'.placeIn? size := by
  cases k with
  | int n => rw [cmp_int_eq_iff.mp h]
  | _ =>
    cases k' with
    | int n => cases cmp_int_eq_iff.mp (Std.OrientedCmp.eq_symm h)
    | _ => rfl

end Value

namespace Table

variable {t : Table} {k k' : Value} {i : Nat}

theorem getKey_of_row (hrow : t.rowIndex? k = some i) : t.getKey k = t.row[i]?.getD .nil := by
  rw [getKey, hrow]

theorem getKey_of_node (hrow : t.rowIndex? k = none) (hplace : t.places[k]? = some i) :
    t.getKey k = (t.nodes[i]?.map Prod.snd).getD .nil := by
  simp only [getKey, hrow, hplace]

theorem getKey_of_missing (hrow : t.rowIndex? k = none) (hplace : t.places[k]? = none) : t.getKey k = .nil := by
  simp only [getKey, hrow, hplace]

theorem getKey_setRow (hrow : t.rowIndex? k = some i) (v : Value) :
    (t.setRow i v).getKey k' = if k.cmp k' = .eq then v else t.getKey k' := by
  obtain ⟨n, rfl, hn, hi⟩ := Value.placeIn?_eq_some_iff.mp hrow
  have hindex (key : Value) : (t.setRow i v).rowIndex? key = t.rowIndex? key := by
    simp [setRow, rowIndex?]
  by_cases hk : Value.cmp (.int n) k' = .eq
  · obtain rfl := Value.cmp_int_eq_iff.mp hk
    have hstored : (t.setRow i v).row[i]? = some v := Array.getElem?_setIfInBounds_self_of_lt hi
    rw [if_pos hk, getKey_of_row ((hindex _).trans hrow), hstored, Option.getD_some]
  · rw [if_neg hk]
    cases hrow' : t.rowIndex? k' with
    | none => rw [getKey, getKey, hindex, hrow']; rfl
    | some j =>
      obtain ⟨m, rfl, hm, -⟩ := Value.placeIn?_eq_some_iff.mp hrow'
      have hne : i ≠ j := by
        rintro rfl
        exact hk (Value.cmp_int_eq_iff.mpr (congrArg Value.int (Int64.toInt_inj.mp (hm.trans hn.symm))))
      have hkept : (t.setRow i v).row[j]? = t.row[j]? := Array.getElem?_setIfInBounds_ne hne
      rw [getKey_of_row ((hindex _).trans hrow'), getKey_of_row hrow', hkept]

theorem getKey_setNode (hrow : t.rowIndex? k = none) (hplace : t.places[k]? = some i) (v : Value) :
    (t.setNode k v hrow i hplace).getKey k' = if k.cmp k' = .eq then v else t.getKey k' := by
  by_cases hk : k.cmp k' = .eq
  · have hrow' : (t.setNode k v hrow i hplace).rowIndex? k' = none := (Value.placeIn?_congr hk).symm.trans hrow
    have hplace' : (t.setNode k v hrow i hplace).places[k']? = some i :=
      (Std.TreeMap.getElem?_congr hk).symm.trans hplace
    have hstored : (t.setNode k v hrow i hplace).nodes[i]? = some (k, v) :=
      Array.getElem?_setIfInBounds_self_of_lt (t.indexed.lt_size hplace)
    rw [if_pos hk, getKey_of_node hrow' hplace', hstored, Option.map_some, Option.getD_some]
  · rw [if_neg hk]
    cases hrow' : t.rowIndex? k' with
    | some j =>
      have hkept : (t.setNode k v hrow i hplace).rowIndex? k' = some j := hrow'
      rw [getKey_of_row hkept, getKey_of_row hrow']
      rfl
    | none =>
      have hkept : (t.setNode k v hrow i hplace).rowIndex? k' = none := hrow'
      cases hplace' : t.places[k']? with
      | none =>
        have hmissing : (t.setNode k v hrow i hplace).places[k']? = none := hplace'
        rw [getKey_of_missing hkept hmissing, getKey_of_missing hrow' hplace']
      | some j =>
        have hfound : (t.setNode k v hrow i hplace).places[k']? = some j := hplace'
        have hne : i ≠ j := by
          rintro rfl
          -- both keys are that of one node
          obtain ⟨key, w, hnode, hkey⟩ := t.indexed.placed k i hplace
          obtain ⟨key', w', hnode', hkey'⟩ := t.indexed.placed k' i hplace'
          cases hnode.symm.trans hnode'
          exact hk (Std.TransCmp.eq_trans (Std.OrientedCmp.eq_symm hkey) hkey')
        have hother : (t.setNode k v hrow i hplace).nodes[j]? = t.nodes[j]? := Array.getElem?_setIfInBounds_ne hne
        rw [getKey_of_node hkept hfound, getKey_of_node hrow' hplace', hother]

theorem getKey_pushNode (hrow : t.rowIndex? k = none) (hnew : t.places[k]? = none) (v : Value) :
    (t.pushNode k v hrow hnew).getKey k' = if k.cmp k' = .eq then v else t.getKey k' := by
  have hplaces : (t.pushNode k v hrow hnew).places[k']? = if k.cmp k' = .eq then some t.nodes.size else t.places[k']? :=
    Std.TreeMap.getElem?_insert
  by_cases hk : k.cmp k' = .eq
  · have hrow' : (t.pushNode k v hrow hnew).rowIndex? k' = none := (Value.placeIn?_congr hk).symm.trans hrow
    have hstored : (t.pushNode k v hrow hnew).nodes[t.nodes.size]? = some (k, v) := Array.getElem?_push_size
    rw [if_pos hk] at hplaces ⊢
    rw [getKey_of_node hrow' hplaces, hstored, Option.map_some, Option.getD_some]
  · rw [if_neg hk] at hplaces ⊢
    cases hrow' : t.rowIndex? k' with
    | some j =>
      have hkept : (t.pushNode k v hrow hnew).rowIndex? k' = some j := hrow'
      rw [getKey_of_row hkept, getKey_of_row hrow']
      rfl
    | none =>
      have hkept : (t.pushNode k v hrow hnew).rowIndex? k' = none := hrow'
      cases hplace' : t.places[k']? with
      | none => rw [getKey_of_missing hkept (hplaces.trans hplace'), getKey_of_missing hrow' hplace']
      | some j =>
        have hlt := t.indexed.lt_size hplace'
        have hother : (t.pushNode k v hrow hnew).nodes[j]? = t.nodes[j]? := by
          rw [pushNode, Array.getElem?_push, if_neg (Nat.ne_of_lt hlt)]
        rw [getKey_of_node hkept (hplaces.trans hplace'), getKey_of_node hrow' hplace', hother]

/-- Wherever a value is put, it is found under its key, and everything else as before. -/
theorem getKey_place (t : Table) (k v k' : Value) :
    (t.place k v).getKey k' = if k.cmp k' = .eq then v else t.getKey k' := by
  unfold place
  split
  · next hrow => exact getKey_setRow hrow v
  · next hrow =>
    split
    · next hplace => exact getKey_setNode hrow hplace v
    · next hnew => exact getKey_pushNode hrow hnew v

-- A table takes another shape by placing what it has, one key after the other, in a table that has the new row.

def keep (t : Table) (p : Value × Value) : Table := if p.2.isNil then t else t.place p.1 p.2

/-- Values at the positions from `n` on, by their keys. -/
def positioned : List Value → Nat → List (Value × Value)
  | [], _ => []
  | v :: vs, n => (.int (Int64.ofNat n), v) :: positioned vs (n + 1)

theorem placeRow_eq (vs : List Value) (n : Nat) (t : Table) : t.placeRow vs n = (positioned vs n).foldl keep t := by
  induction vs generalizing n t with
  | nil => rfl
  | cons v vs ih => exact ih (n + 1) _

theorem mem_positioned {vs : List Value} {n : Nat} {p : Value × Value} :
    p ∈ positioned vs n ↔ ∃ j, ∃ hj : j < vs.length, p = (.int (Int64.ofNat (n + j)), vs[j]) := by
  induction vs generalizing n with
  | nil => simp [positioned]
  | cons v vs ih =>
    rw [positioned, List.mem_cons, ih]
    constructor
    · rintro (rfl | ⟨j, hj, rfl⟩)
      · exact ⟨0, by simp, rfl⟩
      · refine ⟨j + 1, by simpa using hj, ?_⟩
        rw [List.getElem_cons_succ, Nat.add_right_comm, Nat.add_assoc]
    · rintro ⟨j, hj, rfl⟩
      cases j with
      | zero => exact Or.inl rfl
      | succ j =>
        refine Or.inr ⟨j, by simpa using hj, ?_⟩
        rw [List.getElem_cons_succ, Nat.add_right_comm, Nat.add_assoc]

theorem getKey_foldl_of_notMem {ps : List (Value × Value)} {t : Table} {k : Value} (hk : ∀ p ∈ ps, p.1.cmp k ≠ .eq) :
    (ps.foldl keep t).getKey k = t.getKey k := by
  induction ps generalizing t with
  | nil => rfl
  | cons p ps ih =>
    rw [List.foldl_cons, ih fun q hq => hk q (List.mem_cons_of_mem _ hq), keep]
    split
    · rfl
    · rw [getKey_place, if_neg (hk p List.mem_cons_self)]

/-- Of keys that are all different, each is found with its value. -/
theorem getKey_foldl_of_mem {ps : List (Value × Value)} {t : Table} {k : Value}
    (hdistinct : ps.Pairwise fun p q => p.1.cmp q.1 ≠ .eq) {p : Value × Value} (hp : p ∈ ps) (hk : p.1.cmp k = .eq)
    (hnil : t.getKey k = .nil) : (ps.foldl keep t).getKey k = p.2 := by
  induction ps generalizing t with
  | nil => cases hp
  | cons q ps ih =>
    obtain ⟨hq, hrest⟩ := List.pairwise_cons.mp hdistinct
    rw [List.foldl_cons]
    rcases List.mem_cons.mp hp with rfl | hp
    · have hothers : ∀ r ∈ ps, r.1.cmp k ≠ .eq := fun r hr hsame =>
        hq r hr (Std.TransCmp.eq_trans hk (Std.OrientedCmp.eq_symm hsame))
      rw [getKey_foldl_of_notMem hothers, keep]
      split
      · next hv =>
        cases hp2 : p.2 with
        | nil => exact hnil
        | _ => simp [hp2, Value.isNil] at hv
      · rw [getKey_place, if_pos hk]
    · refine ih hrest hp ?_
      rw [keep]
      split
      · exact hnil
      · have hother : q.1.cmp k ≠ .eq := fun hsame =>
          hq p hp (Std.TransCmp.eq_trans hsame (Std.OrientedCmp.eq_symm hk))
        rw [getKey_place, if_neg hother, hnil]

/-- What a table has behind the first places of its row, by keys. -/
def behind (t : Table) (rowSize : Nat) : List (Value × Value) :=
  positioned (t.row.extract rowSize lastPosition).toList (rowSize + 1)

theorem mem_behind {t : Table} {rowSize : Nat} {p : Value × Value} :
    p ∈ t.behind rowSize ↔ ∃ i, rowSize ≤ i ∧ i < lastPosition ∧ ∃ hi : i < t.row.size,
      p = (.int (Int64.ofNat (i + 1)), t.row[i]) := by
  rw [behind, mem_positioned]
  simp only [Array.length_toList, Array.size_extract, Array.getElem_toList, Array.getElem_extract]
  constructor
  · rintro ⟨j, hj, rfl⟩
    refine ⟨rowSize + j, by omega, by omega, by omega, ?_⟩
    rw [Nat.add_right_comm]
  · rintro ⟨i, hrow, hlast, hi, rfl⟩
    have hposition : rowSize + (i - rowSize) = i := by omega
    refine ⟨i - rowSize, by omega, ?_⟩
    simp only [Nat.add_right_comm, hposition]

theorem toInt_position {i : Nat} (hi : i < lastPosition) : (Int64.ofNat (i + 1)).toInt = i + 1 := by
  unfold lastPosition at hi
  rw [Int64.toInt_ofNat_of_lt (by omega)]
  rfl

theorem position_inj {i j : Nat} (hi : i < lastPosition) (hj : j < lastPosition)
    (h : Int64.ofNat (i + 1) = Int64.ofNat (j + 1)) : i = j := by
  have hint := congrArg Int64.toInt h
  rw [toInt_position hi, toInt_position hj] at hint
  omega

theorem positioned_distinct (vs : List Value) (n : Nat) (hlast : n + vs.length ≤ lastPosition) :
    (positioned vs (n + 1)).Pairwise fun p q => p.1.cmp q.1 ≠ .eq := by
  induction vs generalizing n with
  | nil => exact .nil
  | cons v vs ih =>
    rw [List.length_cons] at hlast
    refine List.pairwise_cons.mpr ⟨fun p hp hsame => ?_, ih (n + 1) (by omega)⟩
    obtain ⟨j, hj, rfl⟩ := mem_positioned.mp hp
    have hkey := Value.int.inj (Value.cmp_int_eq_iff.mp hsame)
    rw [Nat.add_right_comm] at hkey
    have hposition := position_inj (by omega) (by omega) hkey
    omega

theorem rowIndex?_position {t : Table} {i : Nat} (hlast : i < lastPosition) (hi : i < t.row.size) :
    t.rowIndex? (.int (Int64.ofNat (i + 1))) = some i :=
  Value.placeIn?_eq_some_iff.mpr ⟨_, rfl, toInt_position hlast, hi⟩

theorem cmp_node_ne {t : Table} {k : Value} {i : Nat} (hrow : t.rowIndex? k = some i) {p : Value × Value}
    (hp : p ∈ t.nodes.toList) : k.cmp p.1 ≠ .eq := by
  intro hsame
  obtain ⟨j, hj, rfl⟩ := Array.getElem_of_mem (Array.mem_toList_iff.mp hp)
  have hapart : t.nodes[j].1.placeIn? t.row.size = none := t.indexed.apart j _ _ (Array.getElem?_eq_getElem hj)
  have hsome := (Value.placeIn?_congr hsame).symm.trans hrow
  rw [hapart] at hsome
  cases hsome

theorem behind_distinct (t : Table) (rowSize : Nat) : (t.behind rowSize).Pairwise fun p q => p.1.cmp q.1 ≠ .eq := by
  by_cases hrow : rowSize ≤ lastPosition
  · refine positioned_distinct _ rowSize ?_
    rw [Array.length_toList, Array.size_extract]
    omega
  · have hnone : (t.row.extract rowSize lastPosition).toList = [] := by
      rw [← List.length_eq_zero_iff, Array.length_toList, Array.size_extract]
      omega
    rw [behind, hnone]
    exact .nil

theorem contents_distinct (t : Table) (rowSize : Nat) :
    (t.behind rowSize ++ t.nodes.toList).Pairwise fun p q => p.1.cmp q.1 ≠ .eq := by
  refine List.pairwise_append.mpr ⟨t.behind_distinct rowSize, ?_, fun p hp q hq => ?_⟩
  · refine List.pairwise_iff_getElem.mpr fun i j hi hj hij hsame => ?_
    rw [Array.length_toList] at hi hj
    have hi' : t.places[t.nodes[i].1]? = some i := t.indexed.keyed i _ _ (Array.getElem?_eq_getElem hi)
    have hj' : t.places[t.nodes[j].1]? = some j := t.indexed.keyed j _ _ (Array.getElem?_eq_getElem hj)
    rw [Array.getElem_toList, Array.getElem_toList] at hsame
    rw [Std.TreeMap.getElem?_congr hsame, hj'] at hi'
    cases hi'
    omega
  · obtain ⟨i, -, hlast, hi, rfl⟩ := mem_behind.mp hp
    exact cmp_node_ne (rowIndex?_position hlast hi) hq

def newRow (t : Table) (rowSize : Nat) : Array Value :=
  if t.row.size ≤ rowSize then t.row ++ Array.replicate (rowSize - t.row.size) .nil else t.row.take rowSize

theorem size_newRow (t : Table) (rowSize : Nat) : (t.newRow rowSize).size = rowSize := by
  unfold newRow
  split
  · simp
    omega
  · simp
    omega

theorem getElem?_newRow (t : Table) {rowSize i : Nat} (hi : i < rowSize) :
    (t.newRow rowSize)[i]?.getD .nil = t.row[i]?.getD .nil := by
  unfold newRow
  split
  · rw [Array.getElem?_append]
    split
    · rfl
    · next hout =>
      rw [Array.getElem?_eq_none (by omega : t.row.size ≤ i), Array.getElem?_replicate]
      split <;> rfl
  · rw [Array.take, Array.getElem?_extract]
    split
    · rw [Nat.zero_add]
    · rw [Array.getElem?_eq_none (by omega : t.row.size ≤ i)]

def bare (t : Table) (rowSize keyed : Nat) : Table := ofRow (t.newRow rowSize) keyed t.metatable

theorem resize_eq (t : Table) (rowSize keyed : Nat) :
    t.resize rowSize keyed = (t.behind rowSize ++ t.nodes.toList).foldl keep (t.bare rowSize keyed) := by
  rw [List.foldl_append, behind, ← placeRow_eq, Array.foldl_toList]
  rfl

theorem getKey_bare (t : Table) (rowSize keyed : Nat) (k : Value) :
    (t.bare rowSize keyed).getKey k = ((t.bare rowSize keyed).rowIndex? k).elim .nil fun i => t.row[i]?.getD .nil := by
  cases hrow : (t.bare rowSize keyed).rowIndex? k with
  | none =>
    rw [getKey_of_missing hrow Std.TreeMap.getElem?_emptyc]
    rfl
  | some i =>
    obtain ⟨n, -, -, hi⟩ := Value.placeIn?_eq_some_iff.mp hrow
    have hlt : i < rowSize := by
      rw [← t.size_newRow rowSize]
      exact hi
    rw [getKey_of_row hrow]
    exact t.getElem?_newRow hlt

theorem rowIndex?_bare {t : Table} {rowSize keyed i : Nat} (hlast : i < lastPosition) (hi : i < rowSize) :
    (t.bare rowSize keyed).rowIndex? (.int (Int64.ofNat (i + 1))) = some i := by
  refine rowIndex?_position hlast ?_
  have hsize : (t.bare rowSize keyed).row.size = rowSize := t.size_newRow rowSize
  rw [hsize]
  exact hi

theorem rowIndex?_bare_eq_none {t : Table} {rowSize keyed i : Nat} (hlast : i < lastPosition) (hi : rowSize ≤ i) :
    (t.bare rowSize keyed).rowIndex? (.int (Int64.ofNat (i + 1))) = none := by
  rw [Option.eq_none_iff_forall_ne_some]
  intro j hj
  obtain ⟨n, hn, hnj, hjsize⟩ := Value.placeIn?_eq_some_iff.mp hj
  have hsize : (t.bare rowSize keyed).row.size = rowSize := t.size_newRow rowSize
  rw [← Value.int.inj hn, toInt_position hlast] at hnj
  omega

theorem getKey_resize_of_row {t : Table} {k : Value} {i : Nat} (hrow : t.rowIndex? k = some i) (rowSize keyed : Nat) :
    (t.resize rowSize keyed).getKey k = t.row[i]?.getD .nil := by
  obtain ⟨n, rfl, hn, hi⟩ := Value.placeIn?_eq_some_iff.mp hrow
  have hlast : i < lastPosition := by
    have hn' := n.toInt_lt
    unfold lastPosition
    omega
  obtain rfl : n = Int64.ofNat (i + 1) := by
    rw [← Int64.toInt_inj, toInt_position hlast, hn]
  have hbare := t.getKey_bare rowSize keyed (.int (Int64.ofNat (i + 1)))
  rw [resize_eq]
  by_cases hkept : i < rowSize
  · -- the place stays in the row, and nothing that is placed has its key
    rw [rowIndex?_bare hlast hkept] at hbare
    rw [getKey_foldl_of_notMem, hbare]
    · rfl
    · intro p hp hsame
      rcases List.mem_append.mp hp with hp | hp
      · obtain ⟨j, hj, hjlast, _, rfl⟩ := mem_behind.mp hp
        have hposition := position_inj hjlast hlast (Value.int.inj (Value.cmp_int_eq_iff.mp hsame)).symm
        omega
      · exact cmp_node_ne hrow hp (Std.OrientedCmp.eq_symm hsame)
  · -- the place leaves the row, and the value is placed among the nodes
    rw [rowIndex?_bare_eq_none hlast (Nat.le_of_not_lt hkept)] at hbare
    have hmem : (Value.int (Int64.ofNat (i + 1)), t.row[i]) ∈ t.behind rowSize ++ t.nodes.toList :=
      List.mem_append_left _ (mem_behind.mpr ⟨i, by omega, hlast, hi, rfl⟩)
    rw [getKey_foldl_of_mem (t.contents_distinct rowSize) hmem (Value.cmp_int_eq_iff.mpr rfl) hbare,
      Array.getElem?_eq_getElem hi]
    rfl

section

variable {t : Table} {k : Value} (hrow : t.rowIndex? k = none)

include hrow

/-- A place that the old row did not have is empty in the new one. -/
theorem getKey_bare_of_no_place (rowSize keyed : Nat) : (t.bare rowSize keyed).getKey k = .nil := by
  rw [getKey_bare]
  cases hindex : (t.bare rowSize keyed).rowIndex? k with
  | none => rfl
  | some i =>
    obtain ⟨n, rfl, hn, -⟩ := Value.placeIn?_eq_some_iff.mp hindex
    have hout : t.row.size ≤ i := Nat.le_of_not_lt fun hin => by
      have hsome := Value.placeIn?_eq_some_iff.mpr ⟨n, rfl, hn, hin⟩
      rw [rowIndex?, hsome] at hrow
      cases hrow
    change t.row[i]?.getD .nil = .nil
    rw [Array.getElem?_eq_none hout]
    rfl

theorem cmp_behind_ne {rowSize : Nat} {p : Value × Value} (hp : p ∈ t.behind rowSize) : p.1.cmp k ≠ .eq := by
  intro hsame
  obtain ⟨i, -, hlast, hi, rfl⟩ := mem_behind.mp hp
  have hsome := (Value.placeIn?_congr hsame).symm.trans (rowIndex?_position hlast hi)
  rw [rowIndex?, hsome] at hrow
  cases hrow

theorem getKey_resize_of_no_place (rowSize keyed : Nat) : (t.resize rowSize keyed).getKey k = t.getKey k := by
  have hmissing := getKey_bare_of_no_place hrow rowSize keyed
  rw [resize_eq]
  cases hplace : t.places[k]? with
  | some i =>
    obtain ⟨key, v, hnode, hkey⟩ := t.indexed.placed k i hplace
    have hmem : (key, v) ∈ t.behind rowSize ++ t.nodes.toList :=
      List.mem_append_right _ (Array.mem_toList_iff.mpr (Array.mem_of_getElem? hnode))
    rw [getKey_foldl_of_mem (t.contents_distinct rowSize) hmem hkey hmissing, getKey_of_node hrow hplace, hnode]
    rfl
  | none =>
    rw [getKey_foldl_of_notMem, hmissing, getKey_of_missing hrow hplace]
    intro p hp hsame
    rcases List.mem_append.mp hp with hp | hp
    · exact cmp_behind_ne hrow hp hsame
    · obtain ⟨j, hj, rfl⟩ := Array.getElem_of_mem (Array.mem_toList_iff.mp hp)
      have hfound : t.places[t.nodes[j].1]? = some j := t.indexed.keyed j _ _ (Array.getElem?_eq_getElem hj)
      rw [Std.TreeMap.getElem?_congr hsame, hplace] at hfound
      cases hfound

end

/-- The shape of a table does not show. -/
theorem getKey_resize (t : Table) (rowSize keyed : Nat) (k : Value) : (t.resize rowSize keyed).getKey k = t.getKey k := by
  cases hrow : t.rowIndex? k with
  | some i => rw [getKey_resize_of_row hrow, getKey_of_row hrow]
  | none => exact getKey_resize_of_no_place hrow rowSize keyed

/-- A store changes what is found under its key, and nothing else. -/
theorem getKey_setKey (t : Table) (k v k' : Value) :
    (t.setKey k v).getKey k' = if k.cmp k' = .eq then v else t.getKey k' := by
  unfold setKey
  split
  · next hrow => exact getKey_setRow hrow v
  · next hrow =>
    split
    · next hplace => exact getKey_setNode hrow hplace v
    · next hnew =>
      split
      · next hv =>
        obtain rfl : v = .nil := by
          cases v with
          | nil => rfl
          | _ => cases hv
        split
        · next hsame =>
          have hrow' := (Value.placeIn?_congr hsame).symm.trans hrow
          exact getKey_of_missing hrow' ((Std.TreeMap.getElem?_congr hsame).symm.trans hnew)
        · rfl
      · split
        · exact getKey_pushNode hrow hnew v
        · rw [getKey_place, grow, getKey_resize]

theorem get_set_str (t : Table) (s : Bytes) (v : Value) : (t.set (.str s) v).get (.str s) = v := by
  rw [get, set, getKey_setKey]
  exact if_pos (Value.cmp_str_eq_iff.mpr rfl)

theorem get_set_str_of_ne (t : Table) {s : Bytes} {k : Value} (hk : k ≠ .str s) (v : Value) :
    (t.set (.str s) v).get k = t.get k := by
  have hother : Value.cmp (.str s) k.asKey ≠ .eq := by
    intro hsame
    have hkey := Value.cmp_str_eq_iff.mp hsame
    cases k with
    | float x =>
      simp only [Value.asKey] at hkey
      split at hkey <;> cases hkey
    | _ => exact hk hkey
  rw [get, set, getKey_setKey]
  exact if_neg hother

end Table

end ScriptHost.Lua
