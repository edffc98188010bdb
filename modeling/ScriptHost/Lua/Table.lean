import ScriptHost.Lua.KeyOrder
import ScriptHost.Lua.Number
import Std.Data.TreeMap.Lemmas

/-! # Tables

A table holds a row of values at the positions from one on, and everything else by key. The row is sized so that more
than half of it is in use whenever the keyed part has to grow; its size shows only in which border of a row with gaps is
taken for its length. Keys keep the order of their first use, and a cleared key keeps its place until the next growth. The order in which a
traversal visits the keyed part is a parameter. -/

namespace ScriptHost.Lua

namespace Value

def rawEq : Value → Value → Bool
  | nil, nil => true
  | bool a, bool b => a == b
  | int a, int b => a == b
  | float a, float b => a == b
  | int a, float b => Number.exactInt? b == some a
  | float a, int b => Number.exactInt? a == some b
  | str a, str b => a == b
  | table a, table b => a == b
  | builtin a, builtin b => a == b
  | closure a, closure b => a == b
  | thread a, thread b => a == b
  | userdata a, userdata b => a == b
  | lightUserdata a, lightUserdata b => a == b
  | error a, error b => a == b
  | _, _ => false

/-- A value as a key: a whole double is the same key as the whole number. -/
def asKey : Value → Value
  | float x =>
    match Number.exactInt? x with
    | some n => int n
    | none => float x
  | v => v

end Value

/-- The place in a row of so many values that a key names. -/
def Value.placeIn? (size : Nat) : Value → Option Nat
  | .int n =>
    let i := n.toInt
    if 0 < i ∧ i ≤ size then some (i.toNat - 1) else none
  | _ => none

/-- The keys of the nodes beside a row are all different, and none of them belongs in the row: each is found where it
stands, and nothing else is found there. -/
structure Indexed (size : Nat) (nodes : Array (Value × Value)) (places : Std.TreeMap Value Nat Value.cmp) : Prop where
  placed : ∀ (k : Value) (i : Nat), places[k]? = some i → ∃ key v, nodes[i]? = some (key, v) ∧ key.cmp k = .eq
  keyed : ∀ (i : Nat) (k v : Value), nodes[i]? = some (k, v) → places[k]? = some i
  apart : ∀ (i : Nat) (k v : Value), nodes[i]? = some (k, v) → k.placeIn? size = none

namespace Indexed

variable {size : Nat} {nodes : Array (Value × Value)} {places : Std.TreeMap Value Nat Value.cmp}

theorem empty (size : Nat) : Indexed size #[] ∅ where
  placed k i h := by simp at h
  keyed i k v h := by simp at h
  apart i k v h := by simp at h

theorem lt_size (h : Indexed size nodes places) {k : Value} {i : Nat} (hk : places[k]? = some i) : i < nodes.size := by
  obtain ⟨key, v, hnode, -⟩ := h.placed k i hk
  exact (Array.getElem?_eq_some_iff.mp hnode).1

theorem push (h : Indexed size nodes places) {k : Value} (hrow : k.placeIn? size = none) (hnew : places[k]? = none)
    (v : Value) : Indexed size (nodes.push (k, v)) (places.insert k nodes.size) where
  placed k' i hk' := by
    rw [Std.TreeMap.getElem?_insert] at hk'
    split at hk'
    · next hsame =>
      cases hk'
      exact ⟨k, v, Array.getElem?_push_size, hsame⟩
    · obtain ⟨key, w, hnode, hkey⟩ := h.placed k' i hk'
      refine ⟨key, w, ?_, hkey⟩
      rw [Array.getElem?_push, if_neg (Nat.ne_of_lt (h.lt_size hk')), hnode]
  keyed i k' v' hnode := by
    rw [Array.getElem?_push] at hnode
    split at hnode
    · next hi =>
      cases hnode
      rw [hi]
      exact Std.TreeMap.getElem?_insert_self
    · have hk' := h.keyed i k' v' hnode
      have hother : k.cmp k' ≠ .eq := by
        intro hsame
        rw [Std.TreeMap.getElem?_congr hsame, hk'] at hnew
        cases hnew
      rw [Std.TreeMap.getElem?_insert, if_neg hother, hk']
  apart i k' v' hnode := by
    rw [Array.getElem?_push] at hnode
    split at hnode
    · cases hnode
      exact hrow
    · exact h.apart i k' v' hnode

theorem set (h : Indexed size nodes places) {k : Value} (hrow : k.placeIn? size = none) {i : Nat}
    (hplace : places[k]? = some i) (v : Value) : Indexed size (nodes.setIfInBounds i (k, v)) places where
  placed k' j hk' := by
    by_cases hj : i = j
    · subst hj
      have hi := h.lt_size hplace
      -- one node has both keys
      obtain ⟨key, w, hnode, hkey⟩ := h.placed k i hplace
      obtain ⟨key', w', hnode', hkey'⟩ := h.placed k' i hk'
      cases hnode.symm.trans hnode'
      exact ⟨k, v, Array.getElem?_setIfInBounds_self_of_lt hi,
        Std.TransCmp.eq_trans (Std.OrientedCmp.eq_symm hkey) hkey'⟩
    · obtain ⟨key, w, hnode, hkey⟩ := h.placed k' j hk'
      exact ⟨key, w, by rw [Array.getElem?_setIfInBounds_ne hj, hnode], hkey⟩
  keyed j k' v' hnode := by
    by_cases hj : i = j
    · subst hj
      rw [Array.getElem?_setIfInBounds_self_of_lt (h.lt_size hplace)] at hnode
      cases hnode
      exact hplace
    · rw [Array.getElem?_setIfInBounds_ne hj] at hnode
      exact h.keyed j k' v' hnode
  apart j k' v' hnode := by
    by_cases hj : i = j
    · subst hj
      rw [Array.getElem?_setIfInBounds_self_of_lt (h.lt_size hplace)] at hnode
      cases hnode
      exact hrow
    · rw [Array.getElem?_setIfInBounds_ne hj] at hnode
      exact h.apart j k' v' hnode

end Indexed

/-- An order of so many nodes: which one is visited when, and when each is. -/
structure Order (n : Nat) where
  node : Fin n → Fin n
  time : Fin n → Fin n
  node_time : ∀ i, node (time i) = i
  time_node : ∀ i, time (node i) = i

/-- The nodes as they stand. -/
def Order.standing (n : Nat) : Order n := ⟨id, id, fun _ => rfl, fun _ => rfl⟩

theorem nothing_indexed : Indexed (#[] : Array Value).size #[] ∅ := .empty _

structure Table where
  /-- The values at the positions from one on; some of them may be nil. -/
  row : Array Value := #[]
  /-- The other keys in the order of their first use, with their values; nil marks a cleared key. -/
  nodes : Array (Value × Value) := #[]
  /-- Where a key stands among the nodes. -/
  places : Std.TreeMap Value Nat Value.cmp := ∅
  indexed : Indexed row.size nodes places := by exact nothing_indexed
  /-- How many nodes there can be before the table grows. -/
  capacity : Nat := 0
  metatable : Option Nat := none

namespace Table

def rowIndex? (t : Table) (k : Value) : Option Nat := k.placeIn? t.row.size

def getKey (t : Table) (k : Value) : Value :=
  match t.rowIndex? k with
  | some i => t.row[i]?.getD .nil
  | none =>
    match t.places[k]? with
    | some i => (t.nodes[i]?.map Prod.snd).getD .nil
    | none => .nil

def get (t : Table) (k : Value) : Value := t.getKey k.asKey

def getInt (t : Table) (n : Int) : Value := t.getKey (.int (Int64.ofInt n))

def getStr (t : Table) (s : String) : Value := t.getKey (.ofText s)

def powerAtLeast (n : Nat) : Nat := if n ≤ 1 then n else 2 ^ ((n - 1).log2 + 1)

/-- In which slice of the positions `(2 ^ (i - 1), 2 ^ i]` a positive number lies. -/
def sliceOf (n : Nat) : Nat := if n ≤ 1 then 0 else (n - 1).log2 + 1

def rowPosition? : Value → Option Nat
  | .int n => if 0 < n.toInt ∧ n.toInt ≤ 2 ^ 27 then some n.toInt.toNat else none
  | _ => none

def countKey (counts : Array Nat) (k : Value) : Array Nat :=
  match rowPosition? k with
  | some n => counts.modify (sliceOf n) (· + 1)
  | none => counts

def countRow (counts : Array Nat) : List Value → Nat → Array Nat
  | [], _ => counts
  | v :: vs, n => countRow (if v.isNil then counts else counts.modify (sliceOf n) (· + 1)) vs (n + 1)

/-- The largest power of two such that more than half of the positions up to it are in use, and how many are. -/
def rowSizeFrom (counts : Array Nat) (total : Nat) : Nat → Nat → Nat → Nat × Nat → Nat × Nat
  | 0, _, _, best => best
  | fuel + 1, i, seen, best =>
    if total ≤ 2 ^ i / 2 then best
    else
      let seen := seen + counts[i]?.getD 0
      rowSizeFrom counts total fuel (i + 1) seen (if 2 ^ i / 2 < seen then (2 ^ i, seen) else best)

/-- The best size of the row for counted positions, and how many keys it then holds. -/
def rowSize (counts : Array Nat) : Nat × Nat := rowSizeFrom counts (counts.foldl (· + ·) 0) 28 0 0 (0, 0)

def setRow (t : Table) (i : Nat) (v : Value) : Table :=
  { t with row := t.row.setIfInBounds i v, indexed := by simpa using t.indexed }

def setNode (t : Table) (k v : Value) (hrow : t.rowIndex? k = none) (i : Nat) (hplace : t.places[k]? = some i) : Table :=
  { t with nodes := t.nodes.setIfInBounds i (k, v), indexed := t.indexed.set hrow hplace v }

def pushNode (t : Table) (k v : Value) (hrow : t.rowIndex? k = none) (hnew : t.places[k]? = none) : Table :=
  let i := t.nodes.size
  { t with nodes := t.nodes.push (k, v), places := t.places.insert k i, indexed := t.indexed.push hrow hnew v }

def place (t : Table) (k v : Value) : Table :=
  match hrow : t.rowIndex? k with
  | some i => t.setRow i v
  | none =>
    match hplace : t.places[k]? with
    | some i => t.setNode k v hrow i hplace
    | none => t.pushNode k v hrow hplace

def placeRow (t : Table) : List Value → Nat → Table
  | [], _ => t
  | v :: vs, n => placeRow (if v.isNil then t else t.place (.int (Int64.ofNat n)) v) vs (n + 1)

def lastPosition : Nat := 2 ^ 63 - 1

def ofRow (row : Array Value) (keyed : Nat) (metatable : Option Nat := none) : Table :=
  { row, indexed := .empty _, capacity := powerAtLeast keyed, metatable }

/-- The table with other sizes of its parts; cleared keys are dropped. -/
def resize (t : Table) (rowSize keyed : Nat) : Table :=
  let row := if t.row.size ≤ rowSize then t.row ++ Array.replicate (rowSize - t.row.size) .nil else t.row.take rowSize
  let fresh := (ofRow row keyed t.metatable).placeRow (t.row.extract rowSize lastPosition).toList (rowSize + 1)
  t.nodes.foldl (fun t (k, v) => if v.isNil then t else t.place k v) fresh

def grow (t : Table) (k : Value) : Table :=
  let counts := countRow (Array.replicate 30 0) t.row.toList 1
  let used := t.nodes.foldl (fun counts (k, v) => if v.isNil then counts else countKey counts k) counts
  let used := countKey used k
  let total := (t.row.foldl (fun n v => if v.isNil then n else n + 1) 0)
    + (t.nodes.foldl (fun n (_, v) => if v.isNil then n else n + 1) 0) + 1
  let (size, inRow) := rowSize used
  t.resize size (total - inRow)

def setKey (t : Table) (k v : Value) : Table :=
  match hrow : t.rowIndex? k with
  | some i => t.setRow i v
  | none =>
    match hplace : t.places[k]? with
    | some i => t.setNode k v hrow i hplace
    | none =>
      if v.isNil then t
      else if t.nodes.size < t.capacity then t.pushNode k v hrow hplace
      else (t.grow k).place k v

def set (t : Table) (k v : Value) : Table := t.setKey k.asKey v

def setStr (t : Table) (s : String) (v : Value) : Table := t.setKey (.ofText s) v

def sized (rowSize keyed : Nat) : Table :=
  ofRow (Array.replicate rowSize .nil) keyed

def fillRow (row : Array Value) : Nat → List Value → Array Value
  | _, [] => row
  | i, v :: vs => fillRow (row.setIfInBounds i v) (i + 1) vs

@[simp] theorem size_fillRow (row : Array Value) (i : Nat) (vs : List Value) : (fillRow row i vs).size = row.size := by
  induction vs generalizing row i with
  | nil => rfl
  | cons v vs ih => rw [fillRow, ih, Array.size_setIfInBounds]

/-- Stores values at the positions behind the first `count`; the row grows if they do not fit. -/
def storeRow (t : Table) (count : Nat) (vs : List Value) : Table :=
  let last := count + vs.length
  let t := if t.row.size < last then t.resize last t.capacity else t
  { t with row := fillRow t.row count vs, indexed := by simpa using t.indexed }

/-- The bytes that a table takes, by estimate. -/
def footprint (t : Table) : Nat := 56 + 16 * t.row.size + 40 * t.capacity

/-- A border between a used position `low` and an unused one `high`. -/
def border (used : Nat → Bool) : Nat → Nat → Nat → Nat
  | 0, low, _ => low
  | fuel + 1, low, high =>
    if high - low ≤ 1 then low
    else
      let middle := (low + high) / 2
      if used middle then border used fuel middle high else border used fuel low middle

/-- A used position and an unused one beyond it, found by doubling. -/
def doubling (used : Nat → Bool) : Nat → Nat → Nat × Nat
  | 0, low => (low, low + 1)
  | fuel + 1, low => if used (2 * low) then doubling used fuel (2 * low) else (low, 2 * low)

/-- The length of a table: a position that is in use, or zero, such that the next is not. -/
def length (t : Table) : Nat :=
  let n := t.row.size
  let inRow (i : Nat) : Bool := !(t.row[i - 1]?.getD .nil).isNil
  let used (i : Nat) : Bool := !(t.getInt i).isNil
  if 0 < n ∧ !inRow n then (if 2 ≤ n ∧ inRow (n - 1) then n - 1 else border inRow 64 0 n)
  else if t.nodes.isEmpty ∨ !used (n + 1) then n
  else
    let (low, high) := doubling used 62 (max n 1)
    border used 64 low high

/-- The first node in use that is visited from a time on; `fuel` bounds the number of nodes left. -/
def nodeFrom (t : Table) (order : Order t.nodes.size) : Nat → Nat → Option (Value × Value)
  | 0, _ => none
  | fuel + 1, i =>
    if hi : i < t.nodes.size then
      let (k, v) := t.nodes[order.node ⟨i, hi⟩]
      if v.isNil then nodeFrom t order fuel (i + 1) else some (k, v)
    else none

def rowFrom (t : Table) (order : Order t.nodes.size) : Nat → Nat → Option (Value × Value)
  | 0, _ => t.nodeFrom order t.nodes.size 0
  | fuel + 1, i =>
    match t.row[i]? with
    | none => t.nodeFrom order t.nodes.size 0
    | some v => if v.isNil then rowFrom t order fuel (i + 1) else some (.int (Int64.ofNat (i + 1)), v)

/-- The entry after a key in a traversal, or the first one after nil: the row comes first, then the nodes in the given
order. An unknown key is an error. -/
def next (t : Table) (order : Order t.nodes.size) (k : Value) : Except Unit (Option (Value × Value)) :=
  match k with
  | .nil => .ok (t.rowFrom order (t.row.size + 1) 0)
  | k =>
    let k := k.asKey
    match t.rowIndex? k with
    | some i => .ok (t.rowFrom order (t.row.size + 1) (i + 1))
    | none =>
      match hplace : t.places[k]? with
      | some i => .ok (t.nodeFrom order t.nodes.size (order.time ⟨i, t.indexed.lt_size hplace⟩ + 1))
      | none => .error ()

end Table

end ScriptHost.Lua
