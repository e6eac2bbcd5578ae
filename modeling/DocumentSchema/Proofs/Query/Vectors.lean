import DocumentSchema.Proofs.Floating.Bytes
import DocumentSchema.Proofs.Floating.Nearest
import DocumentSchema.Proofs.Query.Tokens

/-!
# Query vectors as bytes

A clause on vectors goes to the store with the bytes of its query vector. The bytes are read back by
the type of the components: as many as the field has, in the order given
(`Neighbours.bytes_eq_ok_iff`). Components of the wide type come back as they were given. One of the
narrow type comes back as the nearest number there is, but a clause asks whether the components given
are finite and not whether they still are when they have become narrow: from the limit of the narrow
format on a component comes back infinite (`Matcher.vector_bytes`).
-/

set_option autoImplicit false

namespace DocumentSchema.Query

open Floating (readMany?)

/-- The bytes of a vector are those of its converted components. -/
theorem vectorBytes_eq (component : Component) (vector : List Binary64) :
    vectorBytes component vector =
      (vector.map (Floating.convert component.format)).flatMap Floating.toBytes := by
  rw [List.flatMap_map]
  rfl

/-- The bytes of a vector are as many for each component. -/
theorem length_vectorBytes (component : Component) (vector : List Binary64) :
    (vectorBytes component vector).length = vector.length * component.format.bytes := by
  rw [vectorBytes_eq, Floating.length_flatMap_toBytes, List.length_map]

/-- The format of every type of components fills its bytes. -/
theorem packed_format (component : Component) : component.format.Packed := by
  cases component with
  | float32 => exact Format.packed_binary32
  | float64 => exact Format.packed_binary64

/-- The bytes of a vector are those of its components, each in the format of its type. -/
theorem readMany?_vectorBytes (component : Component) (vector : List Binary64) :
    readMany? component.format vector.length (vectorBytes component vector) =
      some (vector.map (Floating.convert component.format)) := by
  have hread := Floating.readMany?_flatMap (packed_format component)
    (vector.map (Floating.convert component.format))
  rwa [List.length_map, ← vectorBytes_eq] at hread

/-- A list of finite numbers only is one of finite numbers. -/
theorem exists_map_finite {f : Format} {xs : List (Floating f)}
    (h : ∀ x ∈ xs, x.isFinite = true) :
    ∃ given : List (Floating.Finite f), xs = given.map .finite := by
  induction xs with
  | nil => exact ⟨[], rfl⟩
  | cons x xs ih =>
    obtain ⟨hx, hxs⟩ := List.forall_mem_cons.1 h
    obtain ⟨y, rfl⟩ := Floating.exists_of_isFinite hx
    obtain ⟨given, rfl⟩ := ih hxs
    exact ⟨y :: given, rfl⟩

section

variable {f g : Format}

/-- Each component becomes what conversion makes of it. -/
theorem becomes_converted (hprecision : 2 ≤ f.precision) (given : List (Floating.Finite g)) :
    List.Forall₂ Floating.Finite.Becomes given
      ((given.map Floating.finite).map (Floating.convert f)) := by
  rw [List.map_map, List.forall₂_map_right_iff, List.forall₂_same]
  exact fun x _ => Floating.becomes_convert hprecision x

/-- Components stay finite exactly below the limit of the format. -/
theorem converted_finite_iff (hprecision : 0 < f.precision) (given : List (Floating.Finite g)) :
    (∀ y ∈ (given.map Floating.finite).map (Floating.convert f), y.isFinite = true) ↔
      ∀ x ∈ given, |x.value| < f.limit := by
  rw [List.forall_mem_map, List.forall_mem_map]
  exact forall₂_congr fun x _ => Floating.isFinite_convert_iff hprecision x

end

/-- Finite components are accepted if they are as many as the field has. -/
theorem Neighbours.bytes_eq_ok_iff {c : Neighbours} {vector : List Binary64} {bytes : Bytes} :
    c.bytes vector = .ok bytes ↔ vector.length = c.dimension.toNat ∧
      (∃ given : List Finite64, vector = given.map .finite) ∧
      bytes = vectorBytes c.component vector := by
  have hfinite : (vector.any fun x => !x.isFinite) = false ↔
      ∃ given : List Finite64, vector = given.map .finite := by
    simp only [List.any_eq_false, Bool.not_eq_true', Bool.not_eq_false]
    constructor
    · exact exists_map_finite
    · rintro ⟨given, rfl⟩
      exact List.forall_mem_map.2 fun y _ => rfl
  unfold Neighbours.bytes
  split
  · rename_i hlength
    exact ⟨nofun, fun h => absurd h.1 hlength⟩
  · rename_i hlength
    split
    · rename_i hnot
      refine ⟨nofun, fun h => ?_⟩
      rw [hfinite.2 h.2.1] at hnot
      cases hnot
    · rename_i hall
      rw [Bool.not_eq_true] at hall
      constructor
      · intro h
        exact ⟨not_not.1 hlength, hfinite.1 hall, (Except.ok.inj h).symm⟩
      · rintro ⟨_, _, rfl⟩
        rfl

/-! ## The bytes of a clause -/

/-- The vector that an operator asks for. -/
def Operator.vector? : Operator → Option (List Binary64)
  | .knn _ vector => some vector
  | .range _ vector => some vector
  | _ => none

namespace Matcher

/-- The bytes of the vector that a clause looks for. -/
def vectorBytes? (m : Matcher) : Option Bytes := (m.nearest?.map Prod.snd).or m.rangeVector?

/-- An operator on a vector leaves its bytes, or is refused. -/
theorem operate_vector {operator : Operator} {vector : List Binary64}
    (hvector : operator.vector? = some vector) (c : Neighbours) :
    (operate operator).AllOrNothing (.neighbours c) fun _ next =>
      ∃ bytes, c.bytes vector = .ok bytes ∧ next.vectorBytes? = some bytes := by
  unfold operate
  apply Edit.AllOrNothing.get_bind
  cases operator with
  | knn count vector =>
    obtain rfl := Option.some.inj hvector
    apply change_allOrNothing (Neighbours.setNearest_allOrNothing count _ c)
    rintro _ ⟨bytes, h, rfl⟩
    exact ⟨bytes, h, rfl⟩
  | range radius vector =>
    obtain rfl := Option.some.inj hvector
    apply change_allOrNothing (Neighbours.setWithin_allOrNothing radius _ c)
    rintro _ ⟨bytes, h, rfl⟩
    exact ⟨bytes, h, rfl⟩
  | _ => cases hvector

/-- Operators change what a clause on vectors looks for, and nothing else of it. -/
theorem after_neighbours (c : Neighbours) (operators : List Operator) :
    ∃ found, (Matcher.neighbours c).after operators =
      .neighbours { c with neighbourhood := found } := by
  induction operators using List.reverseRecOn with
  | nil => exact ⟨c.neighbourhood, rfl⟩
  | append_singleton operators operator ih =>
    obtain ⟨found, hfound⟩ := ih
    have hall := operate_allOrNothing operator (.neighbours { c with neighbourhood := found })
    rw [after_concat, hfound]
    rcases hon : (operate operator).on (.neighbours { c with neighbourhood := found }) with
      ⟨outcome, next⟩
    cases outcome with
    | ok u => cases hall.of_ok hon <;> exact ⟨_, rfl⟩
    | error e => exact ⟨found, hall.of_error hon⟩

/-- A clause on a vector field, whatever was called on it before, that accepts a vector has finite
components and as many as the field, and its bytes hold these in their order and nothing else. They
are read back unchanged by the wide type. By the narrow type each is read back as the nearest number
of that type or, from half a step above the largest one on, as an infinity; so all are finite exactly
if all components given are below that limit. -/
theorem vector_bytes {schema : Schema} {storage : Storage} {path : String} {kind : KindName}
    {fresh next : Matcher} {options : VectorOptions} {operators : List Operator}
    {operator : Operator} {vector : List Binary64}
    (hresolve : resolve schema storage path = .ok (kind, fresh))
    (hplace : Place.follow path (.level schema.fields) (segments path) =
      .ok (.field (.vector options)))
    (hvector : operator.vector? = some vector)
    (hon : (operate operator).on (fresh.after operators) = (.ok (), next)) :
    ∃ (given : List Finite64) (bytes : Bytes),
      vector = given.map .finite ∧ next.vectorBytes? = some bytes ∧
      bytes.length = options.dimension.toNat * options.component.format.bytes ∧
      (options.component = .float64 →
        readMany? .binary64 options.dimension.toNat bytes = some vector) ∧
      (options.component = .float32 → ∃ components,
        readMany? .binary32 options.dimension.toNat bytes = some components ∧
        List.Forall₂ Floating.Finite.Becomes given components ∧
        ((∀ y ∈ components, y.isFinite = true) ↔
          ∀ x ∈ given, |x.value| < 2 ^ 128 - 2 ^ 103)) := by
  obtain ⟨place, hfollow, _, hmatcher⟩ := resolve_eq_ok hresolve
  obtain rfl : place = .field (.vector options) := Except.ok.inj (hfollow.symm.trans hplace)
  obtain rfl := Option.some.inj (matcher_field hmatcher)
  -- earlier calls change what is searched, never the component type or the dimension
  obtain ⟨found, hafter⟩ := after_neighbours
    { component := options.component, dimension := options.dimension } operators
  rw [hafter] at hon
  obtain ⟨bytes, hbytes, hnext⟩ := (operate_vector hvector _).of_ok hon
  obtain ⟨hlength, ⟨given, hgiven⟩, rfl⟩ := Neighbours.bytes_eq_ok_iff.1 hbytes
  dsimp only at hlength hnext
  have hread := readMany?_vectorBytes options.component vector
  rw [hlength] at hread
  refine ⟨given, _, hgiven, hnext, ?_, ?_, ?_⟩
  · rw [length_vectorBytes, hlength]
  · intro hwide
    -- converting to the wide type keeps every number of it
    have hsame : vector.map (Floating.convert .binary64) = vector := by
      rw [hgiven, List.map_map]
      exact List.map_congr_left fun x _ => Floating.convert_self (by decide) x
    rw [hwide] at hread ⊢
    exact hread.trans (congrArg some hsame)
  · intro hnarrow
    rw [hnarrow] at hread ⊢
    have hcomponents : readMany? .binary32 options.dimension.toNat (vectorBytes .float32 vector) =
        some (vector.map (Floating.convert .binary32)) := hread
    refine ⟨_, hcomponents, ?_, ?_⟩
    · rw [hgiven]
      exact becomes_converted (by decide) given
    · rw [hgiven, ← Format.limit_binary32]
      exact converted_finite_iff (by decide) given

/-! ### Numbers beyond the narrow type -/

/-- The options of a vector of one number in single precision. -/
def pitchOptions : VectorOptions :=
  { algorithm := .flat 1024, component := .float32, dimension := 1, metric := .euclidean,
    initialCap := none }

/-- Things with a pitch. -/
def pitchSchema : Schema where
  fields := [("pitch", .ofKind (.vector pitchOptions))]
  references := []
  relations := []
  warnings := []

/-- The number nearest to 0.1. -/
def tenth : Finite64 := ⟨false, 7205759403792794, -56, by decide⟩

/-- The number nearest to 1e39. -/
def huge : Finite64 := ⟨false, 6617444900424221, 77, by decide⟩

/-- The path of a pitch is that of a vector. -/
theorem resolve_pitch :
    resolve pitchSchema .json "pitch" =
      .ok (.vector, .neighbours { component := .float32, dimension := 1 }) := by decide

/-- The path of a pitch leads to its field. -/
theorem follow_pitch :
    Place.follow "pitch" (.level pitchSchema.fields) (segments "pitch") =
      .ok (.field (.vector pitchOptions)) := rfl

/-- A clause that looks for what is next to one number. -/
def nextTo (x : Finite64) : Matcher :=
  .neighbours { component := .float32, dimension := 1,
                neighbourhood := some (.nearest 3 (vectorBytes .float32 [.finite x])) }

/-- The call for a number behind one that was accepted and one that was refused. -/
theorem operate_pitch (x : Finite64) :
    (operate (.knn 3 [.finite x])).on
        ((neighbours { component := .float32, dimension := 1 }).after
          [.knn 1 [.finite huge], .knn 1 []]) =
      (.ok (), nextTo x) := rfl

/-- A tenth is finite in the narrow type too. -/
theorem vector_bytes_pitch :
    ∃ bytes components, (nextTo tenth).vectorBytes? = some bytes ∧
      readMany? .binary32 1 bytes = some components ∧ ∀ y ∈ components, y.isFinite = true := by
  obtain ⟨given, bytes, hgiven, hbytes, _, _, hnarrow⟩ :=
    vector_bytes resolve_pitch follow_pitch rfl (operate_pitch tenth)
  obtain ⟨components, hread, _, hfinite⟩ := hnarrow rfl
  refine ⟨bytes, components, hbytes, hread, hfinite.2 ?_⟩
  intro x hx
  have hmem : Floating.finite x ∈ [Floating.finite tenth] := by
    rw [hgiven]
    exact List.mem_map_of_mem hx
  obtain rfl := Floating.finite.inj (List.mem_singleton.1 hmem)
  rw [Floating.Finite.abs_value, Floating.Finite.toRat_magnitude]
  norm_num [tenth]

/-- The clause accepts 1e39, and its bytes hold an infinity. -/
theorem vector_bytes_infinite :
    ¬ ∀ (schema : Schema) (storage : Storage) (path : String) (kind : KindName)
        (fresh next : Matcher) (options : VectorOptions) (operators : List Operator)
        (operator : Operator) (vector : List Binary64) (bytes : Bytes)
        (components : List (Floating options.component.format)),
      resolve schema storage path = .ok (kind, fresh) →
      Place.follow path (.level schema.fields) (segments path) =
        .ok (.field (.vector options)) →
      operator.vector? = some vector →
      (operate operator).on (fresh.after operators) = (.ok (), next) →
      next.vectorBytes? = some bytes →
      readMany? options.component.format options.dimension.toNat bytes = some components →
      ∀ y ∈ components, y.isFinite = true := by
  intro hall
  have hread := readMany?_vectorBytes .float32 [.finite huge]
  have hfinite := hall pitchSchema .json "pitch" _ _ _ pitchOptions _ _ _ _ _ resolve_pitch
    follow_pitch rfl (operate_pitch huge) rfl hread _ (List.mem_singleton.2 rfl)
  exact absurd hfinite (by decide +kernel)

end Matcher

end DocumentSchema.Query
