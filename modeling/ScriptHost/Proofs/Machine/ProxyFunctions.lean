import ScriptHost.Proofs.Machine.FieldCall
import ScriptHost.Proofs.Machine.Room

/-! # The functions of a proxy

A proxy answers for a field with a function that is made for the occasion, and this function sends a call to the host if
it is called on the very object that it was asked of. Both take room as functions of a script do: slots of the stack, on
which the arguments stand twice when they are passed on, and memory. -/

namespace ScriptHost.Lua

theorem eq_of_rawEq_str {a b : Bytes} (h : (Value.str a).rawEq (.str b)) : a = b := by
  have hdata : (a.data == b.data) = true := h
  exact ByteArray.ext (eq_of_beq hdata)

namespace Machine

variable {m m' : Machine}

/-- Steps lead to a frame for the host, whose answer is the result. -/
def Sends (m : Machine) (frame : List Value) : Prop :=
  ∃ m' c, Leads m m' ∧ m'.control = .host frame c fun vs h => .done vs h

def Raises (m : Machine) (e : Raised) : Prop :=
  ∃ m', Leads m m' ∧ ((∃ depth, m'.control = .task (.raise e depth)) ∨ m'.control = .unwind e)

/-- Steps lead to an error of the machine's own, for want of room. -/
def Exhausts (m : Machine) : Prop := ∃ e : Raised, e.IsExhaustion ∧ m.Raises e

theorem Exhausts.of_leads (h : Leads m m') (hm : m'.Exhausts) : m.Exhausts := by
  obtain ⟨e, he, m'', hleads, hcontrol⟩ := hm
  exact ⟨e, he, m'', h.trans hleads, hcontrol⟩

theorem exhausts_of_raise {e : Raised} (he : e.IsExhaustion) {depth : Nat} (h : m.control = .task (.raise e depth)) :
    m.Exhausts := ⟨e, he, m, .refl m, Or.inl ⟨depth, h⟩⟩

theorem exhausts_of_overflow {place : Unit → Bytes} {weight more depth : Nat} {control : Control}
    (h : overflow? place weight more depth = some control) : (m.goto control).Exhausts := by
  rcases overflow?_cases h with rfl | rfl
  · exact exhausts_of_raise (.stack _) rfl
  · exact ⟨.handler, .handler, _, .refl _, Or.inr rfl⟩

theorem not_sends_of_done {d : Machine} (h : Leads m d) {outcome : Except Raised (List Value)}
    (hdone : d.control = .done outcome) (frame : List Value) : ¬ m.Sends frame := by
  rintro ⟨m', c, hleads, hcontrol⟩
  have hsame := h.unique hleads (by simp [isResting, hdone]) (by simp [isResting, hcontrol])
  rw [hsame, hcontrol] at hdone
  cases hdone

section Bound

variable {r : Nat} {g : Bound} (hg : m.vault.closures[r]? = some (.bound g)) {args : List Value} {label : Option Label}
variable {depth : Nat} (hcontrol : m.control = .task (.call (.closure r) args label depth))

include hg hcontrol

theorem step_bound : m.step = m.enterBound r g args label depth := by
  simp only [step, hcontrol, perform, call, callee_closure, hg]

/-- With room for it, a closure that keeps values starts on the store of the machine. -/
theorem within_bound {room passed : Nat} (hroom : g.room args = room) (hpassed : g.passed args = passed)
    (hentry : HasSlots m.weight room) (hpassing : m.HasStack (m.weight + room) passed) :
    Within 1 m ((m.grow (m.weight + room + passed)).runNative ⟨label, "?", depth, m.weight⟩ (g.run r args)) := by
  subst hroom hpassed
  refine .single (by simp [isResting, hcontrol]) ((step_bound hg hcontrol).trans ?_)
  simp only [enterBound, overflow?_eq_none_iff.mpr hentry, overflow?_eq_none_iff.mpr hpassing.1, Option.or_none]
  exact if_pos hpassing.2

theorem bound_exhausts {room passed : Nat} (hroom : g.room args = room) (hpassed : g.passed args = passed)
    (hnone : ¬ (HasSlots m.weight room ∧ m.HasStack (m.weight + room) passed)) : m.Exhausts := by
  subst hroom hpassed
  refine .of_leads (.single (by simp [isResting, hcontrol]) (step_bound hg hcontrol)) ?_
  simp only [enterBound]
  split
  · next hsome =>
    rcases Option.or_eq_some_iff.mp hsome with hentry | ⟨-, hpassing⟩
    · exact exhausts_of_overflow hentry
    · exact exhausts_of_overflow hpassing
  · next hslots =>
    obtain ⟨hentry, hpassing⟩ := Option.or_eq_none_iff.mp hslots
    have hmemory : ¬ m.affords (m.growth (m.weight + g.room args + g.passed args)) := fun h =>
      hnone ⟨overflow?_eq_none_iff.mp hentry, overflow?_eq_none_iff.mp hpassing, h⟩
    rw [withStack, if_neg hmemory]
    exact exhausts_of_raise .memory rfl

end Bound

theorem step_runNative_ask {c : Caller} {f : Heap → Resumption (List Value)} {r : Request} {k : Waiting}
    (hf : f m.heap = .ask r m.heap k) :
    (m.runNative c f).step = if m.affords r.size then { m with control := .native c (f m.heap) }.grant c r k
      else { m with control := .native c (f m.heap) }.failNative c .memory := by
  simp only [runNative, goto, step, hf, stepNative, request]
  rfl

def addMember (m : Machine) (space : Bytes) (k object : Value) : Machine :=
  (m.addToVault (·.addClosure (.bound (.member space k object)))).2

theorem addMember_closure (m : Machine) (space : Bytes) (k object : Value) :
    (m.addMember space k object).vault.closures[m.vault.closures.size]? = some (.bound (.member space k object)) :=
  Array.getElem?_push_size

section Field

variable {f : Nat} {space : Bytes} (hf : m.vault.closures[f]? = some (.bound (.namespaceField space))) {object k : Value}
variable {label : Option Label} {depth : Nat}
variable (hcontrol : m.control = .task (.call (.closure f) [object, k] label depth))

theorem room_field (args : List Value) : (Bound.namespaceField space).room args = 4 := rfl

theorem passed_field (args : List Value) : (Bound.namespaceField space).passed args = 0 := rfl

include hf hcontrol

/-- The function of a namespace gives a new function, if there is room for the call and memory for the function. -/
theorem within_field (hstack : m.HasStack m.weight 4) (hmemory : (m.grow (m.weight + 4)).affords Vault.closureSize) :
    Within 3 m (((m.grow (m.weight + 4)).addMember space k object).proceed
      (.values [.closure m.vault.closures.size])) := by
  have hbound := within_bound hf hcontrol (room_field _) (passed_field _) hstack.1 hstack.nothing
  refine hbound.trans (l := 2) (.step rfl (.single ?_ ?_))
  all_goals rw [step_runNative_ask rfl, Request.size, if_pos hmemory]
  all_goals rfl

theorem field_exhausts (hroom : ¬ (m.HasStack m.weight 4 ∧ (m.grow (m.weight + 4)).affords Vault.closureSize)) :
    m.Exhausts := by
  by_cases hstack : m.HasStack m.weight 4
  · have hmemory : ¬ (m.grow (m.weight + 4)).affords Vault.closureSize := fun h => hroom ⟨hstack, h⟩
    have hbound := within_bound hf hcontrol (room_field _) (passed_field _) hstack.1 hstack.nothing
    refine .of_leads (hbound.leads.trans (.single rfl rfl)) ?_
    rw [step_runNative_ask rfl, Request.size, if_neg hmemory]
    exact exhausts_of_raise .memory rfl
  · exact bound_exhausts hf hcontrol (room_field _) (passed_field _) fun h => hstack ⟨h.1, h.2.2⟩

end Field

/-- Memory for a function is taken from the memory that there is besides the stack. -/
theorem HasMemory.addMember {slots size : Nat} (h : m.HasMemory slots (Vault.closureSize + size)) (space : Bytes)
    (k object : Value) : (m.addMember space k object).HasMemory slots size := by
  have hused : (m.addMember space k object).heap.used = m.heap.used + Vault.closureSize := by
    simp only [Machine.addMember, addToVault, modifyHeap, Vault.addClosure, Vault.footprint, Vault.closureSize, Heap.charge,
      Array.size_push]
    omega
  have hlimit : (m.addMember space k object).limit = m.limit := rfl
  have hstack : (m.addMember space k object).stack = m.stack := rfl
  refine ⟨h.stack, ?_⟩
  have hroom := h.room
  rw [Heap.hasRoom] at hroom
  rw [Heap.hasRoom, hused, hlimit, hstack]
  cases hbound : m.limit with
  | none => rfl
  | some bound =>
    simp only [hbound, Option.all_some, decide_eq_true_eq] at hroom ⊢
    omega

-- The function of a name is called with the object that it is called on and other values.

/-- Whether there is room to enter the function of a name that is called with so many values besides the object. -/
def HasRoomToEnter (m : Machine) (count : Nat) : Prop := m.HasStack m.weight (27 + count)

/-- Whether there is memory for a complaint about such a call. -/
def HasRoomToComplain (m : Machine) (count : Nat) : Prop :=
  (m.grow (m.weight + (27 + count))).heap.admits (m.grow (m.weight + (27 + count))).limit complaintSize

/-- Whether there is room for the values on the stack once more, and memory for an error that the host may raise. -/
def HasRoomToPass (m : Machine) (count : Nat) : Prop :=
  m.HasStack (m.weight + (27 + count)) count ∧
    (m.grow (m.weight + (27 + count) + count)).affords Vault.errorSize

theorem raiseObject_complaint (m : Machine) (depth : Nat) :
    m.raiseObject (.str (m.place ++ bytes "use ns:func() syntax")) depth = m.fault (bytes "use ns:func() syntax") depth := by
  have hobject : (Value.str (m.place ++ bytes "use ns:func() syntax")).rawEq (.str memoryMessage) = false := by
    refine Bool.eq_false_iff.mpr fun h => ?_
    -- the complaint is longer than the message of the other error
    have hsize := congrArg ByteArray.size (eq_of_rawEq_str h)
    have hlong : (bytes "use ns:func() syntax").size = 20 := by decide
    have hshort : memoryMessage.size = 17 := by decide
    rw [ByteArray.size_append] at hsize
    omega
  simp only [raiseObject, hobject, Bool.false_eq_true, if_false]
  rfl

section Member

variable {g : Nat} {space : Bytes} {k object t : Value}
variable (hg : m.vault.closures[g]? = some (.bound (.member space k object))) {vs : List Value} {label : Option Label}
variable {depth : Nat} (hcontrol : m.control = .task (.call (.closure g) (t :: vs) label depth))

theorem room_member : (Bound.member space k object).room (t :: vs) = 27 + vs.length := by
  simp only [Bound.room, List.length_cons]
  omega

theorem passed_member (ht : t.rawEq object) : (Bound.member space k object).passed (t :: vs) = vs.length := by
  have hsame : (Native.arg (t :: vs) 1).rawEq object = true := ht
  simp [Bound.passed, hsame]

theorem passed_member_misused (ht : ¬ t.rawEq object) : (Bound.member space k object).passed (t :: vs) = 0 := by
  have hother : (Native.arg (t :: vs) 1).rawEq object = false := Bool.eq_false_iff.mpr ht
  simp [Bound.passed, hother]

theorem run_member (ht : t.rawEq object) : (Bound.member space k object).run g (t :: vs) m.heap =
    .ask (.host (.str space :: k :: vs)) m.heap fun vs h => .done vs h := by
  have hsame : (Native.arg (t :: vs) 1).rawEq object = true := ht
  simp only [Bound.run, hsame, Bool.not_true, Bool.false_eq_true, if_false]
  rfl

theorem run_member_misused (ht : ¬ t.rawEq object) : (Bound.member space k object).run g (t :: vs) m.heap =
    .ask (.claim complaintSize) m.heap fun _ h => .fault (.message (bytes "use ns:func() syntax")) h := by
  have hother : (Native.arg (t :: vs) 1).rawEq object = false := Bool.eq_false_iff.mpr ht
  simp only [Bound.run, hother, Bool.not_false, if_true]
  rfl

include hg hcontrol

/-- The function of a name sends its frame if it is called on the object that it was asked of. -/
theorem within_member (ht : t.rawEq object) (henter : m.HasRoomToEnter vs.length) (hpass : m.HasRoomToPass vs.length) :
    Within 2 m { m.grow (m.weight + (27 + vs.length) + vs.length) with
      control := .host (.str space :: k :: vs) ⟨label, "?", depth, m.weight⟩ fun vs h => .done vs h } := by
  obtain ⟨hstack, hmemory⟩ := hpass
  have hbound := within_bound hg hcontrol room_member (passed_member ht) henter.1 hstack
  refine hbound.trans (l := 1) (.single rfl ?_)
  rw [step_runNative_ask (run_member ht), Request.size, if_pos hmemory]
  rfl

/-- Called on anything else, it takes the memory for a complaint first. -/
theorem within_claim (ht : ¬ t.rawEq object) (henter : m.HasRoomToEnter vs.length) {m' : Machine}
    (hgrown : m' = m.grow (m.weight + (27 + vs.length))) :
    Within 2 m (if m'.heap.admits m'.limit complaintSize then
      (m'.modifyHeap (·.charge complaintSize)).runNative ⟨label, "?", depth, m.weight⟩ fun h =>
        .fault (.message (bytes "use ns:func() syntax")) h
      else m'.proceed (.raise .memory depth)) := by
  subst hgrown
  have hbound := within_bound hg hcontrol room_member (passed_member_misused ht) henter.1 henter.nothing
  refine hbound.trans (l := 1) (.single rfl ?_)
  rw [step_runNative_ask (run_member_misused ht)]
  rfl

theorem within_member_misused (ht : ¬ t.rawEq object) (henter : m.HasRoomToEnter vs.length)
    (hcomplain : m.HasRoomToComplain vs.length) :
    Within 3 m (((m.grow (m.weight + (27 + vs.length))).modifyHeap (·.charge complaintSize)).fault
      (bytes "use ns:func() syntax") depth) := by
  have hclaim := within_claim hg hcontrol ht henter rfl
  rw [HasRoomToComplain] at hcomplain
  rw [if_pos hcomplain] at hclaim
  exact hclaim.trans (l := 1) (.single rfl (raiseObject_complaint _ depth))

/-- Without room for what it does, the function of a name raises an error of the machine's own. -/
theorem member_exhausts (hroom : ¬ m.HasRoomToEnter vs.length ∨ t.rawEq object ∧ ¬ m.HasRoomToPass vs.length ∨
    ¬ t.rawEq object ∧ ¬ m.HasRoomToComplain vs.length) : m.Exhausts := by
  by_cases henter : m.HasRoomToEnter vs.length
  · rcases hroom.resolve_left (not_not_intro henter) with ⟨ht, hpass⟩ | ⟨ht, hcomplain⟩
    · by_cases hstack : m.HasStack (m.weight + (27 + vs.length)) vs.length
      · have hmemory : ¬ (m.grow (m.weight + (27 + vs.length) + vs.length)).affords Vault.errorSize := fun h =>
          hpass ⟨hstack, h⟩
        have hbound := within_bound hg hcontrol room_member (passed_member ht) henter.1 hstack
        refine .of_leads (hbound.leads.trans (.single rfl rfl)) ?_
        rw [step_runNative_ask (run_member ht), Request.size, if_neg hmemory]
        exact exhausts_of_raise .memory rfl
      · exact bound_exhausts hg hcontrol room_member (passed_member ht) fun h => hstack h.2
    · refine .of_leads (within_claim hg hcontrol ht henter rfl).leads ?_
      rw [HasRoomToComplain] at hcomplain
      rw [if_neg hcomplain]
      exact exhausts_of_raise .memory rfl
  · exact bound_exhausts hg hcontrol room_member rfl fun h =>
      henter ⟨h.1, affords_growth_mono (Nat.le_add_right ..) h.2.2⟩

end Member

end Machine

/-- Whether there is room for looking up a function of a proxy: for a call of the machine's own, for the slots of the
function that answers for the proxy, and memory for the function that it makes. -/
def HasLookupRoom (m : Machine) (depth : Nat) : Prop :=
  HasCallRoom depth ∧ m.HasStack m.weight 4 ∧ (m.grow (m.weight + 4)).affords Vault.closureSize

instance (m : Machine) (depth : Nat) : Decidable (HasLookupRoom m depth) := inferInstanceAs (Decidable (_ ∧ _ ∧ _))

/-- The machine once a function was looked up in a proxy. -/
def Machine.withMember (m : Machine) (space : Bytes) (k : Value) (p : Nat) : Machine :=
  (m.grow (m.weight + 4)).addMember space k (.table p)

theorem Machine.withMember_closure (m : Machine) (space : Bytes) (k : Value) (p : Nat) :
    (m.withMember space k p).vault.closures[m.vault.closures.size]? = some (.bound (.member space k (.table p))) :=
  (m.grow (m.weight + 4)).addMember_closure space k (.table p)

theorem Machine.HasMemory.hasLookupRoom {m : Machine} {slots size depth : Nat}
    (h : m.HasMemory slots (Vault.closureSize + size)) (hdepth : HasCallRoom depth) (hfits : m.weight + 4 ≤ stackLimit)
    (hslots : 2 * (m.weight + 4) ≤ slots) : HasLookupRoom m depth := by
  have hgrown := h.grow hslots
  exact ⟨hdepth, h.hasStack hfits hslots, hgrown.affords (by omega)⟩

theorem Machine.HasMemory.withMember {m : Machine} {slots size : Nat} (h : m.HasMemory slots (Vault.closureSize + size))
    (hslots : 2 * (m.weight + 4) ≤ slots) (space : Bytes) (k : Value) (p : Nat) :
    (m.withMember space k p).HasMemory slots size :=
  (h.grow hslots).addMember space k (.table p)

/-- A machine that is about to look up the field of an object for a call in a script function, as the last thing that the
function does if `tail` holds. What is asked is the function of a namespace, about the proxy `p`. -/
structure ProxyLookup (m : Machine) (captured : Array Captured) (a : Activation) (rest : List Frame) (tail : Bool)
    (space : Bytes) (p : Nat) (o k : Value) (front : List Value) (args : List Expr) : Prop where
  call : ∃ top t, m.control = .task t ∧ m.frames = .script captured top :: rest ∧
    FieldCall (m.vault.scope captured) a o k tail top t front args
  asked : ∃ f, m.heap.index o k = .call (.closure f) [.table p, k] ∧
    m.vault.closures[f]? = some (.bound (.namespaceField space))

theorem FieldCall.weight {s : Scope} {a top : Activation} {o k : Value} {tail : Bool} {t : Task} {front : List Value}
    {args : List Expr} (h : FieldCall s a o k tail top t front args) : top.weight = a.weight := by
  cases h <;> rfl

namespace ProxyLookup

variable {m : Machine} {captured : Array Captured} {a : Activation} {rest : List Frame} {tail : Bool} {space : Bytes}
variable {p : Nat} {o k : Value} {front : List Value} {args : List Expr}

theorem weight (h : ProxyLookup m captured a rest tail space p o k front args) : m.weight = a.weight := by
  obtain ⟨top, t, -, hframes, hcall⟩ := h.call
  simp only [Machine.weight, hframes, List.head?_cons, Option.map_some, Option.getD_some, Frame.weight, hcall.weight]

/-- The call comes to the call of the function that looks the field up, one level deeper. -/
theorem within_lookup (h : ProxyLookup m captured a rest tail space p o k front args) :
    ∃ f line kont callLine called label, m.vault.closures[f]? = some (.bound (.namespaceField space)) ∧
      FieldCall.Waits kont (.ofCall tail callLine called) front args ∧
      Within 2 m (m.onTop captured { a with line, kont := .only :: kont :: a.kont } rest
        (.deeper (fun _ => ({ a with line } : Activation).place) (.closure f) [.table p, k] label a.depth)) := by
  obtain ⟨top, t, hcontrol, hframes, hcall⟩ := h.call
  obtain ⟨f, hindex, hf⟩ := h.asked
  obtain ⟨line, kont, callLine, called, label, hwaits, hlookup⟩ := hcall.within_lookup hindex rest
  have hself : m.onTop captured top rest t = m := by
    rw [Machine.onTop, ← hframes, ← hcontrol]
  rw [hself] at hlookup
  exact ⟨f, line, kont, callLine, called, label, hf, hwaits, hlookup⟩

/-- With room for it, the function of the name is made, and the arguments are evaluated behind it. -/
theorem within_made (h : ProxyLookup m captured a rest tail space p o k front args) (hroom : HasLookupRoom m a.depth) :
    ∃ line kont callLine called, FieldCall.Waits kont (.ofCall tail callLine called) front args ∧
      Within 6 m ((m.withMember space k p).onTop captured { a with line, kont := kont :: a.kont } rest
        (.value (.closure m.vault.closures.size))) := by
  obtain ⟨hdepth, hstack, hmemory⟩ := hroom
  obtain ⟨f, line, kont, callLine, called, label, hf, hwaits, hlookup⟩ := h.within_lookup
  rw [deeper_of_room _ _ _ _ hdepth] at hlookup
  rw [h.weight] at hstack hmemory
  have hfield := Machine.within_field (m := m.onTop captured { a with line, kont := .only :: kont :: a.kont } rest
    (.call (.closure f) [.table p, k] label (a.depth + 1))) hf rfl hstack hmemory
  let made := (m.grow (a.weight + 4)).addMember space k (.table p)
  let top : Activation := { a with line, kont := .only :: kont :: a.kont }
  have hstep : (made.onTop captured top rest (.values [.closure m.vault.closures.size])).step =
      made.turned captured rest ((made.workspace captured).receiveAll top [.closure m.vault.closures.size]) :=
    Machine.step_values _
  have hback := Machine.within_turn hstep rfl
  rw [Machine.withMember, h.weight]
  exact ⟨line, kont, callLine, called, hwaits, (hlookup.trans hfield).trans hback⟩

/-- With arguments that are at hand, the function of the name is called. -/
theorem within_calling (h : ProxyLookup m captured a rest tail space p o k front args) (hroom : HasLookupRoom m a.depth)
    {vs : List Value}
    (hargs : ∀ line, List.Forall₂ (Expr.Reads ((m.withMember space k p).vault.scope captured) { a with line }) args
      vs) :
    ∃ line line' label, Within 7 m ((m.withMember space k p).calling captured { a with line } rest tail line'
      (.closure m.vault.closures.size) (front ++ vs) label) := by
  obtain ⟨line, kont, callLine, called, hwaits, hmade⟩ := h.within_made hroom
  obtain ⟨line', label, hcalling⟩ := Machine.turned_reach_call (m := m.withMember space k p)
    (by rw [m.withMember_closure]; rfl) captured { a with line } rest tail callLine called (front ++ vs)
  refine ⟨line, line', label, hmade.trans (.single rfl ((Machine.step_value _).trans ?_))⟩
  have hread : ((m.withMember space k p).workspace captured).receive { a with line, kont := kont :: a.kont }
      (.closure m.vault.closures.size) =
        ((m.withMember space k p).workspace captured).reach { a with line } (.ofCall tail callLine called)
          (.closure m.vault.closures.size :: (front ++ vs)) := by
    rw [← List.cons_append, ← List.reverse_reverse (_ :: front), ← Workspace.evalList_reads (hargs line)]
    exact hwaits _ { a with line } _
  rw [hread, hcalling]

/-- With room for it too, the function then sends its frame if it is called on the proxy. -/
theorem within_host {t : Value} (h : ProxyLookup m captured a rest false space p o k (t :: front) args)
    (hroom : HasLookupRoom m a.depth) {vs : List Value}
    (hargs : ∀ line, List.Forall₂ (Expr.Reads ((m.withMember space k p).vault.scope captured) { a with line }) args
      vs) (ht : t.rawEq (.table p)) {made : Machine} (hmade : made = m.withMember space k p) {count : Nat}
    (hcount : count = (front ++ vs).length) (henter : made.HasStack a.weight (27 + count))
    (hpass : made.HasStack (a.weight + (27 + count)) count)
    (hmemory : (made.grow (a.weight + (27 + count) + count)).affords Vault.errorSize) :
    ∃ line label, Within 9 m { made.grow (a.weight + (27 + count) + count) with
      frames := .script captured { a with line } :: rest
      control := .host (.str space :: k :: (front ++ vs)) ⟨label, "?", a.depth, a.weight⟩ fun vs h => .done vs h } := by
  subst hmade hcount
  obtain ⟨line, line', label, hcalling⟩ := h.within_calling hroom hargs
  have hsent := Machine.within_member
    (m := (m.withMember space k p).calling captured { a with line } rest false line' _ _ label)
    (m.withMember_closure space k p) rfl ht henter ⟨hpass, hmemory⟩
  exact ⟨line', label, hcalling.trans hsent⟩

theorem exhausts (h : ProxyLookup m captured a rest tail space p o k front args) (hroom : ¬ HasLookupRoom m a.depth) :
    m.Exhausts := by
  obtain ⟨f, line, kont, callLine, called, label, hf, -, hlookup⟩ := h.within_lookup
  refine .of_leads hlookup.leads ?_
  by_cases hdepth : HasCallRoom a.depth
  · rw [deeper_of_room _ _ _ _ hdepth]
    refine Machine.field_exhausts hf rfl fun hfield => hroom ⟨hdepth, ?_⟩
    rw [h.weight]
    exact hfield
  · obtain ⟨e, depth, hdeeper, he⟩ := deeper_without_room (fun _ => ({ a with line } : Activation).place) (.closure f)
      [.table p, k] label hdepth
    rw [hdeeper]
    exact Machine.exhausts_of_raise he rfl

end ProxyLookup

end ScriptHost.Lua
