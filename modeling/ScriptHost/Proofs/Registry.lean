import Mathlib.Data.List.Induction
import Mathlib.Data.List.Sort
import ScriptHost.Registry
import Std.Data.TreeMap.Lemmas

/-! # The last registration of a key decides

A registry is looked at through the list of registrations that made it. Keys are compared as pairs, so registrations
under other keys do not matter, even if the texts of the keys are the same. -/

namespace ScriptHost

theorem eq_of_ascending {β : Type} {cmp : β → β → Ordering} [Std.TransCmp cmp] {xs ys : List β}
    (hxs : xs.Pairwise (cmp · · = .lt)) (hys : ys.Pairwise (cmp · · = .lt)) (hmem : ∀ b, b ∈ xs ↔ b ∈ ys) :
    xs = ys := by
  have hirrefl : Std.Irrefl (cmp · · = .lt) := ⟨fun b h => by simp [Std.ReflCmp.compare_self] at h⟩
  have hantisymm : Std.Antisymm (cmp · · = .lt) := ⟨fun a b hab hba => by
    have hself := Std.TransCmp.lt_trans hab hba
    simp [Std.ReflCmp.compare_self] at hself⟩
  exact hxs.eq_of_mem_iff hys hmem

namespace Key

theorem cmp_eq_compareLex : cmp = compareLex (compareOn Key.space) (compareOn Key.name) := rfl

instance : Std.TransCmp cmp := cmp_eq_compareLex ▸ inferInstance

instance : Std.LawfulEqCmp cmp where
  compare_self := Std.ReflCmp.compare_self
  eq_of_compare := by
    intro a b h
    simp only [cmp, Ordering.then_eq_eq, Std.LawfulEqOrd.compare_eq_iff_eq] at h
    cases a
    cases b
    exact congrArg₂ mk h.1 h.2

end Key

namespace Registry

variable {α : Type}

@[simp] theorem resolve_empty (k : Key) : (empty : Registry α).resolve k = none := by
  simp [empty, resolve]

theorem resolve_register (r : Registry α) (k l : Key) (handle : α) :
    (r.register k handle).resolve l = if k = l then some handle else r.resolve l := by
  simp only [register, resolve, Std.TreeMap.getElem?_insert, Std.LawfulEqCmp.compare_eq_iff_eq]

/-- The registry that registrations make, one after the other. -/
def ofList (regs : List (Key × α)) : Registry α := regs.foldl (fun r p => r.register p.1 p.2) .empty

theorem ofList_append (regs : List (Key × α)) (p : Key × α) :
    ofList (regs ++ [p]) = (ofList regs).register p.1 p.2 := by
  simp [ofList]

/-- A handle is that of the last registration of a key. -/
def Last (regs : List (Key × α)) (k : Key) (handle : α) : Prop :=
  ∃ earlier later, regs = earlier ++ (k, handle) :: later ∧ ∀ p ∈ later, p.1 ≠ k

theorem Last.append_same (regs : List (Key × α)) (k : Key) (handle : α) : Last (regs ++ [(k, handle)]) k handle :=
  ⟨regs, [], rfl, by simp⟩

theorem Last.append_other {regs : List (Key × α)} {k l : Key} {handle : α} (h : Last regs k handle) (hl : l ≠ k)
    (other : α) : Last (regs ++ [(l, other)]) k handle := by
  obtain ⟨earlier, later, rfl, hlater⟩ := h
  refine ⟨earlier, later ++ [(l, other)], by simp, ?_⟩
  intro p hp
  rcases List.mem_append.mp hp with hp | hp
  · exact hlater p hp
  · rwa [List.mem_singleton.mp hp]

/-- Looking a key up finds its last registration, or else there was none. -/
theorem resolve_ofList (regs : List (Key × α)) (k : Key) :
    (∃ handle, (ofList regs).resolve k = some handle ∧ Last regs k handle) ∨
      ((ofList regs).resolve k = none ∧ ∀ p ∈ regs, p.1 ≠ k) := by
  induction regs using List.reverseRecOn with
  | nil => exact Or.inr ⟨resolve_empty k, by simp⟩
  | append_singleton regs p ih =>
    obtain ⟨l, other⟩ := p
    rw [ofList_append, resolve_register]
    by_cases hl : l = k
    · subst hl
      exact Or.inl ⟨other, by simp, Last.append_same regs l other⟩
    · simp only [if_neg hl]
      rcases ih with ⟨handle, hr, hlast⟩ | ⟨hr, hnone⟩
      · exact Or.inl ⟨handle, hr, hlast.append_other hl other⟩
      · refine Or.inr ⟨hr, fun p hp => ?_⟩
        rcases List.mem_append.mp hp with hp | hp
        · exact hnone p hp
        · rwa [List.mem_singleton.mp hp]

theorem mem_keys (r : Registry α) (k : Key) : k ∈ r.keys ↔ r.contains k := by
  rw [keys, Std.TreeMap.mem_keys, contains, resolve, Std.TreeMap.isSome_getElem?_iff_mem]

theorem keys_ascending (r : Registry α) : r.keys.Pairwise (Key.cmp · · = .lt) := Std.TreeMap.ordered_keys

theorem mem_distinctSpaces (ks : List Key) (s : String) : s ∈ distinctSpaces ks ↔ ∃ k ∈ ks, k.space = s := by
  induction ks with
  | nil => simp [distinctSpaces]
  | cons k ks ih =>
    simp only [List.exists_mem_cons_iff, ← ih, distinctSpaces]
    split
    · next hnone => simp [hnone, eq_comm]
    · next t ts hsome =>
      split
      · next hsame => simp [hsome, hsame, eq_comm]
      · simp [hsome, eq_comm]

theorem mem_namespaces (r : Registry α) (s : String) : s ∈ r.namespaces ↔ ∃ k, r.contains k ∧ k.space = s := by
  simp only [namespaces, mem_distinctSpaces, mem_keys]

theorem distinctSpaces_ascending {ks : List Key} (h : ks.Pairwise (Key.cmp · · = .lt)) :
    (distinctSpaces ks).Pairwise (compare · · = .lt) := by
  induction ks with
  | nil => exact .nil
  | cons k ks ih =>
    obtain ⟨hk, hks⟩ := List.pairwise_cons.mp h
    have hrest := ih hks
    simp only [distinctSpaces]
    split
    · exact List.pairwise_singleton ..
    · next t ts hsome =>
      rw [hsome] at hrest
      split
      · exact hrest
      · next hother =>
        refine List.pairwise_cons.mpr ⟨fun s hs => ?_, hrest⟩
        -- the namespace of `k` is not above that of a later key, and not equal to the least of the later ones
        have hle (l : Key) (hl : l ∈ ks) : compare k.space l.space ≠ .gt := by
          intro hgt
          have hkl := hk l hl
          simp [Key.cmp, hgt] at hkl
        have hleast : compare k.space t = .lt := by
          obtain ⟨l, hl, rfl⟩ := (mem_distinctSpaces ks t).mp (by simp [hsome])
          cases hkl : compare k.space l.space with
          | lt => rfl
          | eq => exact absurd (Std.LawfulEqOrd.eq_of_compare hkl) hother
          | gt => exact absurd hkl (hle l hl)
        rcases List.mem_cons.mp hs with rfl | hs
        · exact hleast
        · exact Std.TransCmp.lt_trans hleast ((List.pairwise_cons.mp hrest).1 s hs)

/-- Registries that cannot be told apart by what they list and by what they find. -/
structure Agrees (r r' : Registry α) : Prop where
  keys : r'.keys = r.keys
  namespaces : r'.namespaces = r.namespaces
  resolve : ∀ k, r'.resolve k = r.resolve k

theorem keys_of_resolve {r r' : Registry α} (h : ∀ k, r'.resolve k = r.resolve k) : r'.keys = r.keys :=
  eq_of_ascending r'.keys_ascending r.keys_ascending fun k => by simp only [mem_keys, contains, h]

theorem agrees_of_resolve {r r' : Registry α} (h : ∀ k, r'.resolve k = r.resolve k) : Agrees r r' where
  keys := keys_of_resolve h
  namespaces := congrArg distinctSpaces (keys_of_resolve h)
  resolve := h

theorem contains_register (r : Registry α) (k l : Key) (handle : α) :
    (r.register k handle).contains l ↔ k = l ∨ r.contains l := by
  rw [contains, resolve_register]
  by_cases h : k = l <;> simp [h, contains]

theorem keys_register_iff (r : Registry α) (k : Key) (handle : α) :
    (r.register k handle).keys = r.keys ↔ r.contains k := by
  constructor
  · intro h
    rw [← mem_keys, ← h, mem_keys, contains_register]
    exact Or.inl rfl
  · intro h
    refine eq_of_ascending (keys_ascending _) (keys_ascending _) fun l => ?_
    rw [mem_keys, mem_keys, contains_register]
    exact ⟨fun hl => hl.elim (fun hkl => hkl ▸ h) id, Or.inr⟩

theorem namespaces_register_iff (r : Registry α) (k : Key) (handle : α) :
    (r.register k handle).namespaces = r.namespaces ↔ k.space ∈ r.namespaces := by
  constructor
  · intro h
    rw [← h, mem_namespaces]
    exact ⟨k, (contains_register ..).mpr (Or.inl rfl), rfl⟩
  · intro h
    refine eq_of_ascending (distinctSpaces_ascending (keys_ascending _)) (distinctSpaces_ascending (keys_ascending _))
      fun s => ?_
    simp only [mem_namespaces, contains_register]
    constructor
    · rintro ⟨l, rfl | hl, rfl⟩
      · exact (mem_namespaces ..).mp h
      · exact ⟨l, hl, rfl⟩
    · rintro ⟨l, hl, hs⟩
      exact ⟨l, Or.inr hl, hs⟩

/-- A registration shows, except if the key had that very handle. -/
theorem agrees_register_iff (r : Registry α) (k : Key) (handle : α) :
    Agrees r (r.register k handle) ↔ r.resolve k = some handle := by
  constructor
  · intro h
    rw [← h.resolve, resolve_register, if_pos rfl]
  · intro h
    refine agrees_of_resolve fun l => ?_
    rw [resolve_register]
    split
    · next hkl => rw [← hkl, h]
    · rfl

theorem resolve_of_last {regs : List (Key × α)} {k : Key} {handle : α} (h : Last regs k handle) :
    (ofList regs).resolve k = some handle := by
  obtain ⟨earlier, later, rfl, hlater⟩ := h
  induction later using List.reverseRecOn with
  | nil => rw [ofList_append, resolve_register, if_pos rfl]
  | append_singleton later p ih =>
    have hother : p.1 ≠ k := hlater p (by simp)
    rw [← List.cons_append, ← List.append_assoc, ofList_append, resolve_register, if_neg hother]
    exact ih fun q hq => hlater q (List.mem_append_left _ hq)

theorem resolve_eq_some_iff (regs : List (Key × α)) (k : Key) (handle : α) :
    (ofList regs).resolve k = some handle ↔ Last regs k handle := by
  constructor
  · intro h
    rcases resolve_ofList regs k with ⟨found, hfound, hlast⟩ | ⟨hnone, -⟩
    · rw [h] at hfound
      cases hfound
      exact hlast
    · rw [h] at hnone
      cases hnone
  · exact resolve_of_last

theorem contains_ofList (regs : List (Key × α)) (k : Key) :
    (ofList regs).contains k ↔ k ∈ regs.map Prod.fst := by
  rcases resolve_ofList regs k with ⟨handle, hfound, earlier, later, rfl, -⟩ | ⟨hnone, hother⟩
  · simp [contains, hfound]
  · have hk : k ∉ regs.map Prod.fst := by
      rintro hk
      obtain ⟨p, hp, hpk⟩ := List.mem_map.mp hk
      exact hother p hp hpk
    simp [contains, hnone, hk]

theorem resolve_eq_none_iff (regs : List (Key × α)) (k : Key) :
    (ofList regs).resolve k = none ↔ k ∉ regs.map Prod.fst := by
  rw [← contains_ofList, contains]
  simp

end Registry

/-- One key comes before another by its namespace, or in the same namespace by its name. -/
def Key.Precedes (k l : Key) : Prop := k.space < l.space ∨ k.space = l.space ∧ k.name < l.name

theorem Key.precedes_of_cmp {k l : Key} (h : Key.cmp k l = .lt) : k.Precedes l := by
  rcases Ordering.then_eq_lt.mp h with hspace | ⟨hspace, hname⟩
  · exact Or.inl (compareOfLessAndEq_eq_lt.mp hspace)
  · exact Or.inr ⟨Std.LawfulEqOrd.eq_of_compare hspace, compareOfLessAndEq_eq_lt.mp hname⟩

namespace Registry

/-- What a registry shows if registrations made it, one after the other. -/
structure Reflects (regs : List (Key × α)) (r : Registry α) : Prop where
  resolve : ∀ k handle, r.resolve k = some handle ↔ Last regs k handle
  lacks : ∀ k, r.resolve k = none ↔ k ∉ regs.map Prod.fst
  contains : ∀ k, r.contains k ↔ ∃ handle, r.resolve k = some handle
  put : ∀ k handle, r.put k handle = (decide (k ∈ regs.map Prod.fst), ofList (regs ++ [(k, handle)]))
  others : ∀ k handle l, l ≠ k → (r.put k handle).2.resolve l = r.resolve l
  keys : ∀ k, k ∈ r.keys ↔ k ∈ regs.map Prod.fst
  keysAscend : r.keys.Pairwise Key.Precedes
  namespaces : ∀ s, s ∈ r.namespaces ↔ ∃ k ∈ regs.map Prod.fst, k.space = s
  namespacesAscend : r.namespaces.Pairwise (· < ·)

/-- A registry is the map in which the last registration of a key wins. Each registration answers whether its key was
there before and leaves the other keys alone, and the listings show every key and every namespace once, in order. -/
theorem reflects_ofList (regs : List (Key × α)) : Reflects regs (ofList regs) where
  resolve := resolve_eq_some_iff regs
  lacks := resolve_eq_none_iff regs
  contains k := Option.isSome_iff_exists
  put k handle := by
    have hanswer : (ofList regs).contains k = decide (k ∈ regs.map Prod.fst) := by
      rw [Bool.eq_iff_iff, contains_ofList, decide_eq_true_iff]
    rw [Registry.put, hanswer, ofList_append]
  others k handle l hl := by
    change ((ofList regs).register k handle).resolve l = (ofList regs).resolve l
    rw [resolve_register, if_neg hl.symm]
  keys k := by rw [mem_keys, contains_ofList]
  keysAscend := (keys_ascending _).imp Key.precedes_of_cmp
  namespaces s := by simp only [mem_namespaces, contains_ofList]
  namespacesAscend := (distinctSpaces_ascending (keys_ascending _)).imp compareOfLessAndEq_eq_lt.mp

/-- Different keys may have the same text. -/
example : Key.text ⟨"a:b", "c"⟩ = Key.text ⟨"a", "b:c"⟩ := rfl

end Registry

end ScriptHost
