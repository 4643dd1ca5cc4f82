import GimpleLowering.Proofs.Layout.Tables
import Mathlib.Logic.Relation

/-!
# Requests to the registered types

Whoever lowers functions shares one registry, and asks it for the struct of a record, for an array
type, for the fields of a struct, for the representation of a type, or for the completion of all
that is registered. A request may be refused half-way, after it registered other types; what it
registered stays. `Requests` is one request with whatever outcome, and the registries that occur are
those reached from the empty one by any number of them. Structs can be completed in any order: that
is a number of requests for their fields.

* **The tables are coherent.** At every moment the ids and the tables agree, and what was handed out
  stays (`Registry.coherent_of_requests`).
* **Runtime types are identities.** Two types get the same runtime type, at whatever moments, if and
  only if they have the same expansion (`valueType_eq_iff_expand_eq`).

## Main definitions

* `Layout.Requests` — one request
-/

namespace GimpleLowering.Layout

open Gimple Relation

variable {x : UnitIndex} {r r' : Registry}

/-- One request to the types that are registered for a unit, whether or not it is refused. -/
inductive Requests (x : UnitIndex) : Registry → Registry → Prop where
  | resolve {r r' : Registry} {res : Except Error Nat} (ty : Ty)
      (run : (resolve x ty).runOn r = .ok (res, r')) : Requests x r r'
  | resolveHandle {r r' : Registry} {res : Except Error Nat} (ty : Ty)
      (run : (resolveHandle x ty).runOn r = .ok (res, r')) : Requests x r r'
  /-- The members may be of any runtime type. -/
  | resolveArray {r : Registry} (member : Flo.Ty) (length : Nat) :
      Requests x r (r.registerArray member length).2
  | fields {r r' : Registry} {res : Except Error (List Slot)} (id : Nat)
      (run : (slotsOf x id).runOn r = .ok (res, r')) : Requests x r r'
  | represent {r r' : Registry} {res : Except Error Representation} (ty : Ty)
      (run : (represent x ty).runOn r = .ok (res, r')) : Requests x r r'
  | finalize {r r' : Registry} {res : Except Error Unit}
      (run : (finalize x).runOn r = .ok (res, r')) : Requests x r r'

/-! ### Runs of requests -/

/-- What a request does to a registry, with any array types in it. -/
theorem Requests.evolves (h : Requests x r r') :
    EvolvesUpTo x (fun _ => True) (fun _ => True) [] r r' := by
  have hx : x.Closed fun _ => True := .univ x
  cases h with
  | resolve ty run => exact resolve_keeps hx trivial _ _ _ run
  | resolveHandle ty run => exact resolveHandle_keeps hx trivial _ _ _ run
  | resolveArray member length => exact registerMember_evolves (.inl trivial)
  | fields id run => exact slotsOf_keeps hx _ _ _ _ run
  | represent ty run => exact represent_keeps hx trivial _ _ _ run
  | finalize run => exact finalize_keeps hx _ _ _ run

theorem evolves_of_requests (h : ReflTransGen (Requests x) r r') :
    EvolvesUpTo x (fun _ => True) (fun _ => True) [] r r' := by
  induction h with
  | refl => exact refl_of (EvolvesUpTo x (fun _ => True) (fun _ => True) []) r
  | tail _ last ih =>
    exact trans_of (EvolvesUpTo x (fun _ => True) (fun _ => True) []) ih last.evolves

theorem sound_of_requests (h : ReflTransGen (Requests x) .empty r) :
    r.SoundUpTo x (fun _ => True) fun _ => True :=
  (evolves_of_requests h (.empty x _)).sound

/-! ### Coherence -/

/-- At every moment the ids and the tables agree, and they keep what is in them. -/
theorem Registry.coherent_of_requests (reached : ReflTransGen (Requests x) .empty r)
    (later : ReflTransGen (Requests x) r r') : r.Coherent x ∧ r.Persists r' :=
  have hs := sound_of_requests reached
  ⟨hs.coherent, (evolves_of_requests later hs).grows.persists⟩

/-- A record with a field that the runtime has nothing for, behind one that it has an array for. -/
def oddRecord : Ty :=
  .record "odd" [⟨"values", .array (.integer 32) 4⟩, ⟨"flags", .integer 7⟩]

/-- The fields of the record are refused after the array was registered, which leaves the struct
undefined; it stays so while other types are registered. -/
theorem coherent_oddRecord : ∃ r r' : Registry, r.arrays = [(.unspecified, 2), (.signed32, 4)] ∧
    (r.struct? 1).map RecordStruct.isLaidOut = some false ∧ r.Coherent .empty ∧ r.Persists r' := by
  refine ⟨_, _, ?_, ?_, Registry.coherent_of_requests
    (ReflTransGen.head (.resolveArray .unspecified 2) <|
      .head (.resolve oddRecord rfl) <| .single <| .fields 1 rfl)
    (.single <| .represent (.array .boolean 4) rfl)⟩
  · rfl
  · rfl

/-! ### Identity -/

/-- Two types have the same runtime type, whenever they are represented, if and only if they are
equal once the forward references at their cores are completed. -/
theorem valueType_eq_iff_expand_eq {a b : Ty} {r₀ r₁ r₂ r₃ : Registry} {typ typ' : Flo.Ty}
    (reached : ReflTransGen (Requests x) .empty r₀) (first : (valueType x a).Ran r₀ typ r₁)
    (between : ReflTransGen (Requests x) r₁ r₂) (second : (valueType x b).Ran r₂ typ' r₃) :
    typ = typ' ↔ x.expand a = x.expand b := by
  have hx : x.Closed fun _ => True := .univ x
  have h₀ := sound_of_requests reached
  have h₁ := (valueType_keeps hx trivial).ran first h₀
  have h₂ := evolves_of_requests between h₁.sound
  have h₃ := (valueType_keeps hx trivial).ran second h₂.sound
  have ha : HasValueType x r₁ a typ := valueType_ran hx trivial h₀ first
  have hb : HasValueType x r₃ b typ' := valueType_ran hx trivial h₂.sound second
  exact (ha.mono (h₂.grows.trans h₃.grows)).eq_iff hb

/-- A unit that defines the points. -/
def points : UnitIndex := { UnitIndex.empty with records := [⟨"point", [⟨"x", .integer 32⟩]⟩] }

/-- The points, spelled out. -/
def point : Ty := .record "point" [⟨"x", .integer 32⟩]

/-- Arrays of points have one runtime type, however the points are written and whatever is
registered in between. -/
theorem valueType_points_eq : ∃ r₁ r₂ r₃ typ typ', Requests points r₁ r₂ ∧
    (valueType points (.array (.record "point" []) 3)).Ran .empty typ r₁ ∧
    (valueType points (.array point 3)).Ran r₂ typ' r₃ ∧ typ = typ' := by
  have between : ∀ r, Requests points r (r.registerArray .double 3).2 :=
    fun _ => .resolveArray .double 3
  refine ⟨_, _, _, _, _, between _, rfl, rfl, ?_⟩
  exact (valueType_eq_iff_expand_eq (x := points) (a := .array (.record "point" []) 3)
    (b := .array point 3) .refl rfl (.single (between _)) rfl).2 rfl

end GimpleLowering.Layout
