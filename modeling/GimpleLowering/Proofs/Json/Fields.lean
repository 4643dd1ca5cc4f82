import GimpleLowering.Json.Fields
import GimpleLowering.Proofs.Except
import GimpleLowering.Proofs.Text.First
import Mathlib.Algebra.Group.Int.Defs
import Mathlib.Algebra.Group.Nat.Defs

/-!
# What readers of records give

A record that is read is made of fields that were read, whatever the form of the record in the
text and the order of its fields. So what the readers of its fields promise, the record keeps.

## Main definitions

* `Json.Fields.Gives` — a value that can be read from some frame

## Main results

* `Json.Fields.Gives.seq`, `required`, `defaulted` — a record is made of what its fields give
* `Json.Fields.gives_of_record` — a record that is read is given by its fields
-/

namespace GimpleLowering.Json

variable {α β : Type}

/-! ### Single values -/

namespace Document

theorem asInteger_bounds {low high i : Int} {wanted : String} {d : Document}
    (h : d.asInteger low high wanted = .ok i) : low ≤ i ∧ i ≤ high := by
  unfold asInteger at h
  split at h
  · split at h
    · split at h
      · rename_i hi
        exact Except.ok.inj h ▸ hi
      · cases h
    · cases h
  · cases h

theorem asWord32_lt {d : Document} {n : Nat} (h : d.asWord32 = .ok n) : n < 2 ^ 32 := by
  unfold asWord32 at h
  cases hi : d.asInteger 0 4294967295 "u32" with
  | error e => simp [hi, Except.map] at h
  | ok i =>
    have hbounds := asInteger_bounds hi
    simp only [hi, Except.map, Except.ok.injEq] at h
    omega

theorem asWord64_lt {d : Document} {n : Nat} (h : d.asWord64 = .ok n) : n < 2 ^ 64 := by
  unfold asWord64 at h
  cases hi : d.asInteger 0 18446744073709551615 "usize" with
  | error e => simp [hi, Except.map] at h
  | ok i =>
    have hbounds := asInteger_bounds hi
    simp only [hi, Except.map, Except.ok.injEq] at h
    omega

theorem asSigned64_bounds {d : Document} {i : Int} (h : d.asSigned64 = .ok i) :
    -2 ^ 63 ≤ i ∧ i < 2 ^ 63 := by
  have hbounds := asInteger_bounds h
  omega

theorem mem_of_asList {read : Nat → Document → Except Defect α} {depth : Nat} {d : Document}
    {as : List α} (h : asList read depth d = .ok as) {a : α} (ha : a ∈ as) :
    ∃ depth d, read depth d = .ok a := by
  unfold asList at h
  split at h
  · rename_i items closed
    cases depth with
    | zero => cases h
    | succ depth =>
      cases hitems : items.mapM (read depth) with
      | error e => simp [hitems, bind, Except.bind] at h
      | ok values =>
        simp only [hitems, bind, Except.bind] at h
        split at h
        · cases h
          obtain ⟨d, -, hd⟩ := mem_of_mapM hitems ha
          exact ⟨depth, d, hd⟩
        · cases h
  · cases h

theorem of_asOption {read : Document → Except Defect α} {d : Document} {o : Option α}
    (h : asOption read d = .ok o) {a : α} (ha : a ∈ o) : ∃ d, read d = .ok a := by
  unfold asOption at h
  split at h
  · cases h
    cases ha
  · cases hd : read d with
    | error e => simp [hd, Except.map] at h
    | ok b =>
      simp only [hd, Except.map, Except.ok.injEq] at h
      subst h
      exact ⟨d, Option.some.inj ha ▸ hd⟩

end Document

/-! ### Fields -/

/-- A field that was read has a value that was read, unless it has the one of a missing field. -/
theorem Frame.of_field {names : List String} {read : Document → Except Defect α}
    {absent : Option α} {frame : Frame} {i : Nat} {a : α}
    (h : frame.field names read absent i = .ok a) : absent = some a ∨ ∃ d, read d = .ok a := by
  unfold Frame.field at h
  cases frame with
  | members ms closed =>
    simp only at h
    split at h
    · cases absent with
      | none => cases h
      | some b => exact .inl (congrArg some (Except.ok.inj h))
    · exact .inr ⟨_, First.of_located h⟩
    · obtain ⟨g, _, -, hr, -⟩ := First.of_seq h
      cases hr
  | items ds closed wanted =>
    simp only at h
    split at h
    · exact .inr ⟨_, First.of_located h⟩
    · cases absent with
      | none => cases h
      | some b => exact .inl (congrArg some (Except.ok.inj h))

namespace Fields

/-- The value can be read from some frame. -/
def Gives (fs : Fields α) (a : α) : Prop := ∃ frame i, fs.read frame i = .ok a

theorem Gives.required {names : List String} {read : Document → Except Defect α} {a : α}
    (h : (required names read).Gives a) : ∃ d, read d = .ok a := by
  obtain ⟨frame, i, hread⟩ := h
  have h : frame.field names read none i = .ok a := hread
  exact (Frame.of_field h).resolve_left nofun

theorem Gives.defaulted {names : List String} {read : Document → Except Defect α} {absent a : α}
    (h : (defaulted names read absent).Gives a) : absent = a ∨ ∃ d, read d = .ok a := by
  obtain ⟨frame, i, hread⟩ := h
  have h : frame.field names read (some absent) i = .ok a := hread
  exact (Frame.of_field h).imp_left Option.some.inj

theorem Gives.optional {names : List String} {read : Document → Except Defect α} {o : Option α}
    (h : (optional names read).Gives o) {a : α} (ha : a ∈ o) : ∃ d, read d = .ok a := by
  rcases h.defaulted with rfl | ⟨d, h⟩
  · cases ha
  · exact Document.of_asOption h ha

/-- A list that may be missing has items that were read. -/
theorem Gives.list {names : List String} {read : Nat → Document → Except Defect α} {depth : Nat}
    {as : List α} (h : (Fields.defaulted names (Document.asList read depth) []).Gives as) {a : α}
    (ha : a ∈ as) : ∃ depth d, read depth d = .ok a := by
  rcases h.defaulted with rfl | ⟨d, h⟩
  · cases ha
  · exact Document.mem_of_asList h ha

theorem Gives.seq {f : Fields (α → β)} {x : Fields α} {b : β} (h : (f <*> x).Gives b) :
    ∃ g a, f.Gives g ∧ x.Gives a ∧ b = g a := by
  obtain ⟨frame, i, h⟩ := h
  obtain ⟨g, a, hg, ha, rfl⟩ := First.of_seq h
  exact ⟨g, a, ⟨_, _, hg⟩, ⟨_, _, ha⟩, rfl⟩

theorem Gives.map {f : α → β} {x : Fields α} {b : β} (h : (f <$> x).Gives b) :
    ∃ a, x.Gives a ∧ b = f a := by
  obtain ⟨frame, i, h⟩ := h
  obtain ⟨g, a, hg, ha, rfl⟩ := First.of_seq h
  exact ⟨a, ⟨_, _, ha⟩, congrFun (Except.ok.inj hg).symm a⟩

theorem gives_of_ofFrame {fs : Fields α} {takenIn : Bool} {frame : Frame} {a : α}
    (h : fs.ofFrame takenIn frame = .ok a) : fs.Gives a := by
  unfold ofFrame at h
  cases hread : ((fun _ a => a) <$> frame.check fs.names.flatten fs.arity takenIn
      <*> fs.read frame 0) with
  | error e => simp [hread, First.outcome] at h
  | ok b =>
    obtain ⟨g, c, hg, hc, rfl⟩ := First.of_seq hread
    obtain ⟨k, u, hk, -, rfl⟩ := First.of_seq hg
    obtain rfl := Except.ok.inj hk
    rw [hread] at h
    have heq : c = a := Except.ok.inj h
    exact ⟨frame, 0, heq ▸ hc⟩

theorem gives_of_record {title : String} {fields : Nat → Fields α} {takenIn : Bool} {depth : Nat}
    {d : Document} {a : α} (h : record title fields takenIn depth d = .ok a) :
    ∃ depth, (fields depth).Gives a := by
  unfold record at h
  split at h
  · cases h
  · cases h
  · exact ⟨_, gives_of_ofFrame h⟩
  · exact ⟨_, gives_of_ofFrame h⟩
  · cases h

theorem gives_of_payload {p : Payload} {title : String} {fs : Fields α} {a : α}
    (h : p.fields title fs = .ok a) : fs.Gives a := by
  unfold Payload.fields at h
  split at h <;> exact gives_of_ofFrame h

end Fields

end GimpleLowering.Json
