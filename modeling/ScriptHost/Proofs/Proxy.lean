import ScriptHost.Lua.Interpreter
import ScriptHost.Proofs.Fields

/-! # Proxies of namespaces

Scripts know a namespace by its proxy. As it is made, a proxy has no fields, and a function of the namespace answers for
all of them; what a call on a proxy does depends on nothing else about it. -/

namespace ScriptHost.Lua

/-- A proxy as it is made: it has no fields, and its metatable has a function of the namespace answer for all of them. -/
structure IsProxy (h : Heap) (v : Vault) (space : Bytes) (p : Nat) : Prop where
  bare : ∀ k, h.rawGet p k = .nil
  answers : ∃ mt f, (h.table p).metatable = some mt ∧ h.rawGetStr mt "__index" = .closure f ∧
    v.closures[f]? = some (.bound (.namespaceField space))

theorem Table.get_of_empty {t : Table} (hrow : t.row.size = 0) (hnodes : t.nodes.size = 0) (k : Value) : t.get k = .nil := by
  have hindex (key : Value) : t.rowIndex? key = none := by
    cases key with
    | int n => simp [Table.rowIndex?, Value.placeIn?, hrow]
    | _ => rfl
  have hnode (i : Nat) : t.nodes[i]? = none := Array.getElem?_eq_none (by omega)
  rw [Table.get, Table.getKey, hindex]
  simp only [hnode]
  split <;> rfl

theorem IsProxy.metamethod {h : Heap} {v : Vault} {space : Bytes} {p : Nat} (hp : IsProxy h v space p) :
    ∃ f, h.metamethod (.table p) "__index" = .closure f ∧ v.closures[f]? = some (.bound (.namespaceField space)) := by
  obtain ⟨mt, f, hmt, hf, hclosure⟩ := hp.answers
  exact ⟨f, by simp only [Heap.metamethod, Heap.metatable?, hmt, hf], hclosure⟩

theorem IsProxy.index {h : Heap} {v : Vault} {space : Bytes} {p : Nat} (hp : IsProxy h v space p) (k : Value) :
    ∃ f, h.index (.table p) k = .call (.closure f) [.table p, k] ∧
      v.closures[f]? = some (.bound (.namespaceField space)) := by
  obtain ⟨f, hf, hclosure⟩ := hp.metamethod
  exact ⟨f, by simp [Heap.index, chainLimit, Heap.indexFrom, hp.bare k, Value.isNil, hf, Value.isFunction], hclosure⟩

/-- A proxy answers for a name as long as it has no field of this name and its metatable still has the function of the
namespace. -/
structure Serves (h : Heap) (v : Vault) (space name : Bytes) (p : Nat) : Prop where
  bare : h.rawGet p (.str name) = .nil
  answers : ∃ f, h.metamethod (.table p) "__index" = .closure f ∧
    v.closures[f]? = some (.bound (.namespaceField space))

theorem IsProxy.serves {h : Heap} {v : Vault} {space : Bytes} {p : Nat} (hp : IsProxy h v space p) (name : Bytes) :
    Serves h v space name p := ⟨hp.bare _, hp.metamethod⟩

theorem Serves.index {h : Heap} {v : Vault} {space name : Bytes} {p : Nat} (hp : Serves h v space name p) :
    ∃ f, h.index (.table p) (.str name) = .call (.closure f) [.table p, .str name] ∧
      v.closures[f]? = some (.bound (.namespaceField space)) := by
  obtain ⟨f, hf, hclosure⟩ := hp.answers
  exact ⟨f, by simp [Heap.index, chainLimit, Heap.indexFrom, hp.bare, Value.isNil, hf, Value.isFunction], hclosure⟩

theorem Heap.index_of_raw {h : Heap} {r : Nat} {k v : Value} (hv : h.rawGet r k = v) (hnil : v.isNil = false) :
    h.index (.table r) k = .value v := by
  simp [Heap.index, chainLimit, Heap.indexFrom, hv, hnil]

theorem Heap.table_of_tables {h h' : Heap} (htables : h'.tables = h.tables) : h'.table = h.table := by
  funext r
  rw [Heap.table, Heap.table, htables]

theorem Serves.of_tables {h h' : Heap} {v : Vault} {space name : Bytes} {p : Nat} (hp : Serves h v space name p)
    (htables : h'.tables = h.tables) : Serves h' v space name p := by
  have htable := Heap.table_of_tables htables
  refine ⟨?_, ?_⟩
  · rw [Heap.rawGet, htable]
    exact hp.bare
  · have hmetamethod : h'.metamethod (.table p) "__index" = h.metamethod (.table p) "__index" := by
      simp only [Heap.metamethod, Heap.metatable?, Heap.rawGetStr, htable]
    rw [hmetamethod]
    exact hp.answers

theorem Heap.table_rawSet_self {h : Heap} {r : Nat} (hr : r < h.tables.size) (k v : Value) :
    (h.rawSet r k v).table r = (h.table r).set k v := by
  simp [Heap.rawSet, Heap.modifyTable, Heap.table, hr, Array.getElem_modify]

theorem Heap.rawGet_rawSet_str {h : Heap} {r : Nat} (hr : r < h.tables.size) (s : Bytes) (v : Value) :
    (h.rawSet r (.str s) v).rawGet r (.str s) = v := by
  rw [Heap.rawGet, Heap.table_rawSet_self hr, Table.get_set_str]

theorem Heap.rawGet_rawSet_str_of_ne {h : Heap} {r : Nat} (hr : r < h.tables.size) {s : Bytes} {k : Value}
    (hk : k ≠ .str s) (v : Value) : (h.rawSet r (.str s) v).rawGet r k = h.rawGet r k := by
  rw [Heap.rawGet, Heap.table_rawSet_self hr, Table.get_set_str_of_ne _ hk]
  rfl

theorem Heap.table_rawSet_of_ne (h : Heap) {r j : Nat} (hne : j ≠ r) (k v : Value) :
    (h.rawSet j k v).table r = h.table r := by
  simp [Heap.rawSet, Heap.modifyTable, Heap.table, Array.getElem?_modify, hne]

theorem Heap.table_addTable_self (h : Heap) (t : Table) : (h.addTable t).2.table (h.addTable t).1 = t := by
  simp [Heap.addTable, Heap.table]

theorem Heap.table_addTable_of_lt (h : Heap) (t : Table) {r : Nat} (hr : r < h.tables.size) :
    (h.addTable t).2.table r = h.table r := by
  simp [Heap.addTable, Heap.table, Array.getElem?_push, Nat.ne_of_lt hr]

def indexRecord (f : Nat) : Table := (Table.sized 0 1).setStr "__index" (.closure f)

theorem isProxy_of_tables {h : Heap} {v : Vault} {space : Bytes} {p mt f : Nat}
    (hproxy : h.table p = { metatable := some mt }) (hrecord : h.table mt = indexRecord f)
    (hclosure : v.closures[f]? = some (.bound (.namespaceField space))) : IsProxy h v space p := by
  refine ⟨fun k => ?_, mt, f, ?_, ?_, hclosure⟩
  · rw [Heap.rawGet, hproxy]
    exact Table.get_of_empty rfl rfl k
  · rw [hproxy]
  · rw [Heap.rawGetStr, hrecord]
    rfl

/-- A new proxy consists of two new tables. -/
theorem Interpreter.addProxy_tables {i : Interpreter} (hproxies : i.vault.proxies < i.heap.tables.size) (space : Bytes) :
    (i.addProxy space).1 = .table (i.heap.tables.size + 1) ∧
      (i.addProxy space).2.heap.table (i.heap.tables.size + 1) = { metatable := some i.heap.tables.size } ∧
      (i.addProxy space).2.heap.table i.heap.tables.size = indexRecord i.vault.closures.size := by
  let h₁ := (i.heap.addTable (indexRecord i.vault.closures.size)).2
  let proxy : Table := { metatable := some i.heap.tables.size }
  let h₂ := (h₁.addTable proxy).2
  have hsize : h₁.tables.size = i.heap.tables.size + 1 := Array.size_push ..
  have hnew : (i.addProxy space).1 = .table h₁.tables.size := rfl
  have hproxy : (i.addProxy space).2.heap.table h₁.tables.size = proxy := by
    have hother : i.vault.proxies ≠ h₁.tables.size := by omega
    exact (h₂.table_rawSet_of_ne hother _ _).trans (h₁.table_addTable_self proxy)
  have hrecord : (i.addProxy space).2.heap.table i.heap.tables.size = indexRecord i.vault.closures.size := by
    have hbefore : i.heap.tables.size < h₁.tables.size := by omega
    exact (h₂.table_rawSet_of_ne (Nat.ne_of_lt hproxies) _ _).trans
      ((h₁.table_addTable_of_lt proxy hbefore).trans (i.heap.table_addTable_self _))
  rw [hsize] at hnew hproxy
  exact ⟨hnew, hproxy, hrecord⟩

/-- A proxy is untouched when it is made, and changes of tables that were there before do not touch it. -/
theorem Interpreter.addProxy_isProxy {i : Interpreter} (hproxies : i.vault.proxies < i.heap.tables.size) (space : Bytes)
    {r : Nat} (hr : r < i.heap.tables.size) (k v : Value) :
    ∃ p, (i.addProxy space).1 = .table p ∧
      IsProxy ((i.addProxy space).2.heap.rawSet r k v) (i.addProxy space).2.vault space p := by
  obtain ⟨hnew, hproxy, hrecord⟩ := i.addProxy_tables hproxies space
  have hr' : r ≠ i.heap.tables.size + 1 := by omega
  exact ⟨_, hnew, isProxy_of_tables ((Heap.table_rawSet_of_ne _ hr' k v).trans hproxy)
    ((Heap.table_rawSet_of_ne _ (Nat.ne_of_lt hr) k v).trans hrecord) Array.getElem?_push_size⟩

/-- The namespace of a table that can be seen to be an untouched proxy. -/
def proxySpace? (h : Heap) (v : Vault) (p : Nat) : Option Bytes :=
  if (h.table p).row.size = 0 ∧ (h.table p).nodes.size = 0 then
    match h.metamethod (.table p) "__index" with
    | .closure f =>
      match v.closures[f]? with
      | some (.bound (.namespaceField space)) => some space
      | _ => none
    | _ => none
  else none

theorem isProxy_of_proxySpace {h : Heap} {v : Vault} {p : Nat} {space : Bytes} (hspace : proxySpace? h v p = some space) :
    IsProxy h v space p := by
  unfold proxySpace? at hspace
  split at hspace
  · next hempty =>
    split at hspace
    · next f hf =>
      split at hspace
      · next hclosure =>
        cases hspace
        refine ⟨fun k => Table.get_of_empty hempty.1 hempty.2 k, ?_⟩
        simp only [Heap.metamethod, Heap.metatable?] at hf
        split at hf
        · next mt hmt => exact ⟨mt, f, hmt, hf, hclosure⟩
        · cases hf
      · cases hspace
    · cases hspace
  · cases hspace

end ScriptHost.Lua
