import GimpleLowering.Proofs.Except
import GimpleLowering.Proofs.Flo.Processes
import GimpleLowering.Proofs.Flo.Typing

/-!
# Panics of processes

What a process is about to do when it panics can be seen from its state: the end of a block says
so, or the next statement goes through null or has an index that is out of bounds. The signature of
a function has a flag that should warn of that. It does if the object *heeds* it, and if nothing is
null that was declared as a reference.

## Main definitions

* `Flo.Statement.accessed?`, `Flo.Statement.constant?` — what a statement accesses or assigns
* `Flo.Process.Panics`, `Flo.Process.FollowsNullReference` — what is about to happen
* `Flo.Object.Guarded` — a statement that panics only if it may
* `Flo.Object.Heeds` — an object that panics only if it may

## Main results

* `Flo.Process.panics_of_exec` — no statement panics in another way
* `Flo.Process.Panics.of_heeds` — what panics may, or it goes through a null reference
-/

namespace GimpleLowering

/-! ### Outcomes -/

/-- The execution does not panic. -/
def Quiet {α : Type} (a : Outcome α) : Prop := ∀ m, a ≠ .error (.panic m)

namespace Quiet

variable {α β : Type} {a : Outcome α}

theorem ok (x : α) : Quiet (.ok x : Outcome α) := fun _ => nofun

theorem stuck : Quiet (.error .stuck : Outcome α) := fun _ => nofun

/-- What panics after something that does not. -/
theorem exists_of_bind {g : α → Outcome β} (h : Quiet a) {m : Memory}
    (hp : a >>= g = .error (.panic m)) : ∃ x, a = .ok x ∧ g x = .error (.panic m) :=
  (Except.error_of_bind hp).resolve_left (h m)

theorem bind {g : α → Outcome β} (h : Quiet a) (hg : ∀ x, Quiet (g x)) : Quiet (a >>= g) := by
  intro m hp
  obtain ⟨x, -, hx⟩ := h.exists_of_bind hp
  exact hg x m hx

theorem mapM {f : β → Outcome α} (h : ∀ b, Quiet (f b)) (bs : List β) : Quiet (bs.mapM f) := by
  induction bs with
  | nil => exact .ok []
  | cons b bs ih =>
    rw [List.mapM_cons]
    exact (h b).bind fun _ => ih.bind fun _ => .ok _

end Quiet

/-! ### Memory -/

namespace Memory

/-- The only accesses that panic: through null, and to elements that do not exist. -/
inductive Fails (m : Memory) : Value → Access → Prop where
  | null {access : Access} : Fails m .null access
  | outOfBounds {address : Nat} {values : List Value} {i : Int}
      (contents : m.heap address = some (.elements values))
      (outside : Contents.inBounds i values.length = false) :
      Fails m (.reference address) (.element (.integer i))

variable {m m' : Memory} {handle : Value} {access : Access}

/-- The object that a value refers to is there, unless the value is null. -/
theorem object_panics {α : Type} {g : Nat × Contents → Outcome α}
    (h : m.object handle >>= g = .error (.panic m')) : handle = .null ∨
      ∃ address contents, handle = .reference address ∧ m.heap address = some contents ∧
        g (address, contents) = .error (.panic m') := by
  unfold object at h
  split at h
  · exact .inl rfl
  · rename_i address
    cases hc : m.heap address with
    | none => simp [hc, bind, Except.bind] at h
    | some contents =>
      rw [hc] at h
      exact .inr ⟨address, contents, rfl, hc, h⟩
  · cases h

theorem fails_of_load (h : m.load handle access = .error (.panic m')) : m.Fails handle access := by
  obtain rfl | ⟨address, contents, rfl, hc, hget⟩ := object_panics h
  · exact .null
  · change contents.get m access = _ at hget
    unfold Contents.get at hget
    split at hget
    · cases hget
    · split at hget <;> cases hget
    · split at hget
      · cases hget
      · exact .outOfBounds hc (Bool.eq_false_iff.2 ‹_›)
    · cases hget

theorem fails_of_store {value : Value} (h : m.store handle access value = .error (.panic m')) :
    m.Fails handle access := by
  obtain rfl | ⟨address, contents, rfl, hc, hset⟩ := object_panics h
  · exact .null
  · rcases Except.error_of_bind hset with hset | ⟨contents', -, hset⟩
    · unfold Contents.set at hset
      split at hset
      · cases hset
      · split at hset <;> cases hset
      · split at hset
        · cases hset
        · exact .outOfBounds hc (Bool.eq_false_iff.2 ‹_›)
      · cases hset
    · cases hset

end Memory

namespace Flo

/-! ### Statements -/

namespace Statement

/-- The variable through which the statement accesses an object, and the part that it accesses. -/
def accessed? : Statement → Option (Nat × Member)
  | load handle member _ _ | store handle member _ _ => some (handle, member)
  | _ => none

/-- The constant that the statement assigns. -/
def constant? : Statement → Option Constant
  | assignConst _ value _ => some value
  | _ => none

end Statement

/-! ### Machines -/

theorem Constant.quiet_value? (c : Constant) : Quiet c.value? := by
  unfold Constant.value?
  split
  · exact .ok _
  · exact .ok _
  · exact .ok _
  · exact .ok _
  · split
    · exact .ok _
    · exact .stuck
  all_goals exact .stuck

namespace Object

variable (o : Object) (M : Machine)

theorem quiet_get (v : Nat) : Quiet (o.get M v) := by
  unfold get
  split
  · exact .ok _
  · exact .ok _
  all_goals exact .stuck

theorem quiet_set (v : Nat) (value : Value) : Quiet (o.set M v value) := by
  unfold set
  split
  · exact .ok _
  · exact .ok _
  all_goals exact .stuck

theorem quiet_setAll (vs : List Nat) (values : List Value) : Quiet (o.setAll M vs values) := by
  unfold setAll
  split
  · generalize vs.zip values = ps
    induction ps generalizing M with
    | nil => exact .ok M
    | cons p ps ih =>
      rw [List.foldlM_cons]
      exact (o.quiet_set M p.1 p.2).bind fun M' => ih M'
  · exact .stuck

theorem quiet_access (member : Member) : Quiet (o.access M member) := by
  cases member with
  | whole => exact .ok _
  | field i => exact .ok _
  | element index => exact (o.quiet_get M index).bind fun _ => .ok _

variable {o M}

/-- The only statements that panic, apart from calls, are those with an access that fails. -/
theorem fails_of_exec {R : Runtime} {s : Statement} (hs : s.callee? = none) {m : Memory}
    (h : o.exec R M s = .error (.panic m)) :
    ∃ handle member value access, s.accessed? = some (handle, member) ∧
      o.get M handle = .ok value ∧ o.access M member = .ok access ∧
        M.memory.Fails value access := by
  cases s with
  | assignConst target value note =>
    exact absurd h (value.quiet_value?.bind (fun _ => o.quiet_set M target _) m)
  | assign target source note =>
    exact absurd h ((o.quiet_get M source).bind (fun _ => o.quiet_set M target _) m)
  | call block input outputs note =>
    cases block with
    | here | unspecified => cases h
    | external name => cases hs
    | builtin name =>
      exact absurd h ((Quiet.mapM (o.quiet_get M) input).bind (fun _ => o.quiet_setAll M _ _) m)
  | construct target initializer note =>
    exact absurd h ((Quiet.mapM (o.quiet_get M) initializer).bind (fun _ => o.quiet_set M _ _) m)
  | destructure whole parts note =>
    refine absurd h ((o.quiet_get M whole).bind (fun value => ?_) m)
    cases value with
    | record values => exact o.quiet_setAll M _ _
    | _ => exact .stuck
  | load handle member target note =>
    obtain ⟨value, hvalue, h⟩ := (o.quiet_get M handle).exists_of_bind h
    obtain ⟨access, haccess, h⟩ := (o.quiet_access M member).exists_of_bind h
    refine ⟨handle, member, value, access, rfl, hvalue, haccess, ?_⟩
    rcases Except.error_of_bind h with h | ⟨loaded, -, h⟩
    · exact Memory.fails_of_load h
    · exact absurd h (o.quiet_set M target loaded m)
  | store handle member source note =>
    obtain ⟨value, hvalue, h⟩ := (o.quiet_get M handle).exists_of_bind h
    obtain ⟨access, haccess, h⟩ := (o.quiet_access M member).exists_of_bind h
    obtain ⟨stored, -, h⟩ := (o.quiet_get M source).exists_of_bind h
    refine ⟨handle, member, value, access, rfl, hvalue, haccess, ?_⟩
    rcases Except.error_of_bind h with h | ⟨memory, -, h⟩
    · exact Memory.fails_of_store h
    · cases h
  | poisoned p => cases h

/-- Where an element is accessed, there is an index. -/
theorem element_of_access {member : Member} {value : Value}
    (h : o.access M member = .ok (.element value)) :
    ∃ index, member = .element index ∧ o.get M index = .ok value := by
  cases member with
  | whole => cases h
  | field i => cases h
  | element index =>
    obtain ⟨value', hget, h⟩ := Except.of_bind h
    cases h
    exact ⟨index, rfl, hget⟩

end Object

/-! ### Panics -/

namespace Process

/-- The process is about to panic: the end of the block says so, or the next statement goes through
null, or it accesses an element of an array that does not have that many. -/
inductive Panics (p : Process) : Prop where
  | exit {message : String} {values : List Nat} (done : p.active.rest = [])
      (isPanic : p.active.exit = .panic message values)
  | null {s : Statement} {rest : List Nat} {handle : Nat} {member : Member}
      (next : p.active.Next s rest) (accesses : s.accessed? = some (handle, member))
      (isNull : p.active.object.get p.machine handle = .ok .null)
  | outOfBounds {s : Statement} {rest : List Nat} {array index address : Nat} {i : Int}
      {values : List Value} (next : p.active.Next s rest)
      (accesses : s.accessed? = some (array, .element index))
      (isArray : p.active.object.get p.machine array = .ok (.reference address))
      (contents : p.memory.heap address = some (.elements values))
      (isIndex : p.active.object.get p.machine index = .ok (.integer i))
      (outside : Contents.inBounds i values.length = false)

/-- The next statement goes through null, in a variable whose type says that it is not. -/
def FollowsNullReference (p : Process) : Prop :=
  ∃ s rest handle member typ, p.active.Next s rest ∧ s.accessed? = some (handle, member) ∧
    p.active.object.get p.machine handle = .ok .null ∧
      p.active.object.HasType handle (.handle typ false)

/-- A process whose next statement panics is about to panic, unless a function is called. -/
theorem panics_of_exec {p : Process} {R : Runtime} {s : Statement} {rest : List Nat}
    (next : p.active.Next s rest) (hs : s.callee? = none) {m : Memory}
    (h : p.active.object.exec R p.machine s = .error (.panic m)) : p.Panics := by
  obtain ⟨handle, member, value, access, haccessed, hget, haccess, hfails⟩ :=
    Object.fails_of_exec hs h
  cases hfails with
  | null => exact .null next haccessed hget
  | outOfBounds contents outside =>
    obtain ⟨index, rfl, hindex⟩ := Object.element_of_access haccess
    exact .outOfBounds next haccessed hget contents hindex outside

end Process

namespace Object

/-- Unless it may panic, the statement accesses objects through references, as a whole or by
field. It never makes a reference null. -/
structure Guarded (o : Object) (panics : Bool) (s : Statement) : Prop where
  constant : ∀ {c : Constant}, s.constant? = some c → ∀ typ, c.typ ≠ .handle typ false
  access : panics = false → ∀ {handle : Nat} {member : Member},
    s.accessed? = some (handle, member) →
      (∃ typ, o.HasType handle (.handle typ false)) ∧ ∀ index, member ≠ .element index

/-- Unless they may panic, the statements of the object are guarded, and no exit panics. -/
structure Heeds (o : Object) (panics : Bool) : Prop where
  statement : ∀ {id : Nat} {s : Statement}, o.statements.get? id = some s → o.Guarded panics s
  exit : ∀ {id : Nat} {row : Block} {message : String} {values : List Nat},
    o.blocks.get? id = some row → row.exit = .panic message values → panics = true

namespace Guarded

variable {o : Object} {b c : Bool} {s : Statement}

/-- A statement that neither assigns a constant nor accesses an object. -/
theorem of_none (hc : s.constant? = none) (ha : s.accessed? = none) : o.Guarded b s :=
  ⟨fun h => (by rw [hc] at h; cases h), fun _ _ _ h => (by rw [ha] at h; cases h)⟩

theorem assignConst {target : Nat} {value : Constant} (h : ∀ typ, value.typ ≠ .handle typ false)
    (note : Note) : o.Guarded b (.assignConst target value note) :=
  ⟨fun hc => Option.some.inj hc ▸ h, nofun⟩

/-- An access through a handle may panic if the handle can be null. -/
theorem of_handle {handle : Nat} {member : Member} {typ : Ty} (hc : s.constant? = none)
    (ha : s.accessed? = some (handle, member)) (hv : o.HasType handle (.handle typ b))
    (hm : ∀ index, member ≠ .element index) : o.Guarded b s := by
  refine ⟨fun h => (by rw [hc] at h; cases h), ?_⟩
  rintro rfl handle' member' h
  obtain ⟨rfl, rfl⟩ := Prod.mk.inj (Option.some.inj (ha.symm.trans h))
  exact ⟨⟨typ, hv⟩, hm⟩

/-- Any access may panic if that is expected. -/
theorem of_true (hc : s.constant? = none) : o.Guarded true s :=
  ⟨fun h => (by rw [hc] at h; cases h), nofun⟩

theorem mono (h : o.Guarded b s) (hb : b = true → c = true) : o.Guarded c s :=
  ⟨h.constant, fun hc => h.access (Bool.eq_false_iff.2 fun ht => by simp [hb ht] at hc)⟩

end Guarded

end Object

/-- If the active function heeds its flag, it only panics if the flag is set, or if it goes through
a null reference. -/
theorem Process.Panics.of_heeds {p : Process} {b : Bool} (h : p.active.object.Heeds b)
    (hexit : ∃ id row, p.active.object.blocks.get? id = some row ∧ p.active.exit = row.exit)
    (hp : p.Panics) : b = true ∨ p.FollowsNullReference := by
  cases hb : b with
  | true => exact .inl rfl
  | false =>
    cases hp with
    | exit done isPanic =>
      obtain ⟨id, row, hrow, heq⟩ := hexit
      exact .inl (hb ▸ h.exit hrow (heq ▸ isPanic))
    | null next accesses isNull =>
      obtain ⟨id, hnext, hid⟩ := next
      obtain ⟨⟨typ, htyp⟩, -⟩ := (h.statement hid).access hb accesses
      exact .inr ⟨_, _, _, _, typ, ⟨id, hnext, hid⟩, accesses, isNull, htyp⟩
    | outOfBounds next accesses =>
      obtain ⟨id, -, hid⟩ := next
      exact absurd rfl (((h.statement hid).access hb accesses).2 _)

end Flo

end GimpleLowering
