import CallAtlas.Json.Codec
import CallAtlas.Proofs.Dictionary

/-!
# JSON forms that lose nothing

A form is lawful when reading undoes writing. Not every value can be written: a count has to fit
into a word, and a float has to be finite. `Fits` says which values these are, and reading gives no
others. So what has been read can be written and read again without a change.

Lists, pairs and dictionaries of values with a lawful form have one too. A record is read field by
field, and the fields of a written record hold what was written for them.
-/

namespace CallAtlas

/-- A JSON form under which reading undoes writing. -/
class LawfulCodec (α : Type) [Codec α] where
  /-- The values that can be written. -/
  Fits : α → Prop
  restored {value : α} : Fits value → decode? (encode value) = some value
  fits {json : Json} {value : α} : decode? json = some value → Fits value

export LawfulCodec (Fits)

namespace LawfulCodec

instance : LawfulCodec Json where
  Fits _ := True
  restored _ := rfl
  fits _ := trivial

instance : LawfulCodec String where
  Fits _ := True
  restored _ := rfl
  fits _ := trivial

instance : LawfulCodec Bool where
  Fits _ := True
  restored _ := rfl
  fits _ := trivial

instance : LawfulCodec Nat where
  Fits n := n ≤ Json.maxInt
  restored {n} small := if_pos ⟨Int.natCast_nonneg n, small⟩
  fits {json n} read := by
    cases json with
    | int value =>
        obtain ⟨⟨-, small⟩, same⟩ := Option.ite_none_right_eq_some.mp read
        exact Option.some.inj same ▸ small
    | _ => cases read

instance : LawfulCodec Float where
  Fits x := x.isFinite = true
  restored {x} finite := by
    have written : encode x = .float x := if_pos finite
    rw [written]
    exact if_pos finite
  fits {json x} read := by
    cases json with
    | int value =>
        obtain ⟨finite, same⟩ := Option.ite_none_right_eq_some.mp read
        exact Option.some.inj same ▸ finite
    | float value =>
        obtain ⟨finite, same⟩ := Option.ite_none_right_eq_some.mp read
        exact Option.some.inj same ▸ finite
    | _ => cases read

section Items

variable {α γ : Type} {write : α → γ} {read : γ → Option α}

/-- Items are read back when each of them is. -/
theorem mapM_map_eq_some {values : List α}
    (each : ∀ value ∈ values, read (write value) = some value) :
    (values.map write).mapM read = some values := by
  induction values with
  | nil => rfl
  | cons value rest ih =>
      obtain ⟨now, later⟩ := List.forall_mem_cons.mp each
      rw [List.map_cons, List.mapM_cons, now, ih later]
      rfl

/-- What is read has a property that each reading gives. -/
theorem forall_of_mapM_eq_some {P : α → Prop} {items : List γ} {values : List α}
    (each : ∀ item value, read item = some value → P value)
    (h : items.mapM read = some values) : ∀ value ∈ values, P value := by
  induction items generalizing values with
  | nil =>
      obtain rfl : [] = values := Option.some.inj h
      nofun
  | cons item rest ih =>
      rw [List.mapM_cons] at h
      obtain ⟨value, now, h⟩ := Option.bind_eq_some_iff.mp h
      obtain ⟨others, later, h⟩ := Option.bind_eq_some_iff.mp h
      obtain rfl : value :: others = values := Option.some.inj h
      exact List.forall_mem_cons.mpr ⟨each item value now, ih later⟩

end Items

section Composite

variable {α β : Type} [Codec α] [Codec β] [LawfulCodec α] [LawfulCodec β]

instance : LawfulCodec (List α) where
  Fits values := ∀ value ∈ values, Fits value
  restored h := mapM_map_eq_some fun value hvalue => restored (h value hvalue)
  fits {json values} read := by
    cases json with
    | arr items => exact forall_of_mapM_eq_some (fun _ _ => fits) read
    | _ => cases read

instance : LawfulCodec (α × β) where
  Fits pair := Fits pair.1 ∧ Fits pair.2
  restored {pair} h := by
    show ((decode? (encode pair.1)).bind fun a => (decode? (encode pair.2)).bind fun b =>
      some (a, b)) = some pair
    rw [restored h.1, restored h.2]
    rfl
  fits {json pair} read := by
    match json, read with
    | .arr [a, b], read =>
        obtain ⟨first, hfirst, read⟩ := Option.bind_eq_some_iff.mp read
        obtain ⟨second, hsecond, read⟩ := Option.bind_eq_some_iff.mp read
        obtain rfl : (first, second) = pair := Option.some.inj read
        exact ⟨fits hfirst, fits hsecond⟩

instance : LawfulCodec (Dictionary α) where
  Fits d := ∀ entry ∈ d.entries, Fits entry.2
  restored {d} h := by
    have read : (d.entries.map fun entry => (entry.1, encode entry.2)).mapM
        (fun field => (decode? field.2).map (field.1, ·)) = some d.entries := by
      refine mapM_map_eq_some fun entry hentry => ?_
      rw [restored (h entry hentry), Option.map_some]
    exact (congrArg (Option.map Dictionary.ofList) read).trans
      (congrArg some d.ofList_entries)
  fits {json d} read := by
    cases json with
    | obj fields =>
        obtain ⟨entries, hentries, rfl⟩ := Option.map_eq_some_iff.mp read
        have each : ∀ entry ∈ entries, Fits entry.2 := by
          refine forall_of_mapM_eq_some (fun field entry h => ?_) hentries
          obtain ⟨value, hvalue, rfl⟩ := Option.map_eq_some_iff.mp h
          exact fits hvalue
        exact fun entry hentry => each entry (Dictionary.mem_of_mem_ofList hentry)
    | _ => cases read

@[simp] theorem fits_json (json : Json) : Fits json := trivial

@[simp] theorem fits_string (text : String) : Fits text := trivial

@[simp] theorem fits_bool (value : Bool) : Fits value := trivial

@[simp] theorem fits_nat_iff {n : Nat} : Fits n ↔ n ≤ Json.maxInt := Iff.rfl

@[simp] theorem fits_float_iff {x : Float} : Fits x ↔ x.isFinite = true := Iff.rfl

@[simp] theorem fits_list_iff {values : List α} : Fits values ↔ ∀ value ∈ values, Fits value :=
  Iff.rfl

@[simp] theorem fits_pair_iff {pair : α × β} : Fits pair ↔ Fits pair.1 ∧ Fits pair.2 := Iff.rfl

@[simp] theorem fits_dictionary_iff {d : Dictionary α} :
    Fits d ↔ ∀ entry ∈ d.entries, Fits entry.2 := Iff.rfl

/-- What has been read is restored when it is written and read again. -/
theorem stable {json : Json} {value : α} (read : decode? json = some value) :
    decode? (encode value) = some value :=
  restored (fits read)

end Composite

end LawfulCodec

namespace Json

/-- What the fields of an object hold under a name. -/
def slot (fields : List (String × Json)) (name : String) : Slot :=
  match fields.lookup name with
  | some json => .value json
  | none => .absent

@[simp] theorem record?_obj (names : List String) (fields : List (String × Json)) :
    (obj fields).record? names = some (slot fields) := rfl

@[simp] theorem slot_cons (key : String) (json : Json) (rest : List (String × Json))
    (name : String) :
    slot ((key, json) :: rest) name = if name = key then .value json else slot rest name := by
  by_cases same : name = key
  · simp [slot, same]
  · simp only [slot, List.lookup_cons, beq_eq_false_iff_ne.mpr same, if_neg same]

end Json

namespace Slot

variable {α : Type} [Codec α] [LawfulCodec α] {slot : Slot}

@[simp] theorem required_encode {v : α} (h : Fits v) : (value (encode v)).required = some v :=
  LawfulCodec.restored h

@[simp] theorem orDefault_encode (default : α) {v : α} (h : Fits v) :
    orDefault default (value (encode v)) = some v :=
  LawfulCodec.restored h

/-- An optional value is restored unless it is written like an absent one. -/
theorem optional_encodeOption {v : Option α} (h : ∀ inner ∈ v, Fits inner)
    (written : ∀ inner ∈ v, encode inner ≠ .null) :
    (value (Codec.encodeOption v)).optional = some v := by
  cases v with
  | none => rfl
  | some inner =>
      have read := LawfulCodec.restored (h inner rfl)
      have filled := written inner rfl
      rw [Codec.encodeOption]
      cases shape : encode inner with
      | null => exact absurd shape filled
      | _ =>
          rw [shape] at read
          exact congrArg (Option.map some) read

@[simp] theorem optional_encodeOption_string (v : Option String) :
    (value (Codec.encodeOption v)).optional = some v :=
  optional_encodeOption (fun _ _ => trivial) nofun

@[simp] theorem optional_encodeOption_nat {v : Option Nat} (h : ∀ n ∈ v, n ≤ Json.maxInt) :
    (value (Codec.encodeOption v)).optional = some v :=
  optional_encodeOption h nofun

theorem fits_of_required {v : α} (h : slot.required = some v) : Fits v := by
  cases slot with
  | value json => exact LawfulCodec.fits h
  | _ => cases h

theorem fits_of_orDefault {default v : α} (h : slot.orDefault default = some v)
    (fits : Fits default) : Fits v := by
  cases slot with
  | value json => exact LawfulCodec.fits h
  | _ => exact Option.some.inj h ▸ fits

theorem fits_of_optional {v : Option α} (h : slot.optional = some v) :
    ∀ inner ∈ v, Fits inner := by
  have decoded {json : Json} (read : (decode? json).map some = some v) :
      ∀ inner ∈ v, Fits inner := by
    obtain ⟨inner, hinner, rfl⟩ := Option.map_eq_some_iff.mp read
    exact fun other same => Option.some.inj same ▸ LawfulCodec.fits hinner
  have missing (read : some none = some v) : ∀ inner ∈ v, Fits inner := by
    rw [← Option.some.inj read]
    nofun
  cases slot with
  | absent => exact missing h
  | beyond => cases h
  | value json =>
      cases json with
      | null => exact missing h
      | _ => exact decoded h

end Slot

end CallAtlas
