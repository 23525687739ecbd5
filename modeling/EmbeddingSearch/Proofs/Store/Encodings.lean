import EmbeddingSearch.Proofs.Numeric.Integers
import EmbeddingSearch.Store.Json

/-!
# Encodings that decode alike

A vector is stored as numbers of either format, as a raw array, or as the text of one. Each encoding
has its own way to binary32: an integer is rounded directly or through binary64, and a binary32
number is widened when it is written and narrowed when it is read. All of them end in the same
numbers.

## Contents
- `Payload.toSingle_eq_viaDouble`: both ways from a number of a document to binary32.
- `Payload.read_numbers`, `Payload.decode_raw_numbers`, `Payload.decode_double_numbers`,
  `Payload.decode_text_numbers`: the four encodings of a list of numbers.
- `Payload.read_toJson_single`, `Payload.read_toJson_double`: a finite vector that is written and
  read again.
- `Payload.decode_alike`: the encodings decode alike, and writing changes nothing.
-/

namespace EmbeddingSearch

namespace Payload

open Numeric

/-! ## Numbers of a document -/

/-- Whether an integer is one of those that binary64 keeps. -/
def Kept : Json.Number → Prop
  | .integer n => n.natAbs ≤ 2 ^ 53
  | .float _ => True

theorem toSingle_eq_viaDouble {n : Json.Number} (h : Kept n) : toSingle n = viaDouble n := by
  cases n with
  | integer n => exact (narrow_ofInt h).symm
  | float x => rfl

theorem map_toSingle {ns : List Json.Number} (h : ∀ n ∈ ns, Kept n) :
    ns.map toSingle = ns.map viaDouble :=
  List.map_congr_left fun n hn => toSingle_eq_viaDouble (h n hn)

/-- A list of numbers as a value. -/
def ofNumbers (ns : List Json.Number) : Json := .array (ns.map .number)

theorem numbers?_eq_some {items : List Json} {ns : List Json.Number} :
    numbers? items = some ns ↔ items = ns.map .number := by
  induction items generalizing ns with
  | nil => cases ns <;> simp [numbers?]
  | cons v items ih =>
    rw [numbers?, List.mapM_cons, ← numbers?]
    constructor
    · intro h
      simp only [Option.bind_eq_bind, Option.bind_eq_some_iff] at h
      obtain ⟨n, hn, rest, hrest, hns⟩ := h
      obtain rfl : n :: rest = ns := Option.some.inj hns
      cases v with
      | number m =>
        obtain rfl : m = n := Option.some.inj hn
        rw [ih.mp hrest, List.map_cons]
      | _ => cases hn
    · intro h
      cases ns with
      | nil => cases h
      | cons n ns =>
        obtain ⟨rfl, hitems⟩ := List.cons.inj h
        rw [ih.mpr hitems]
        rfl

theorem numbers?_map (ns : List Json.Number) : numbers? (ns.map .number) = some ns :=
  numbers?_eq_some.mpr rfl

/-- The numbers of a value that is a list of them. -/
def numbersOf? : Json → Option (List Json.Number)
  | .array items => numbers? items
  | _ => none

theorem eq_ofNumbers {ε : Type} {r : Except ε Json} {ns : List Json.Number}
    (h : r.toOption.bind numbersOf? = some ns) : r = .ok (ofNumbers ns) := by
  cases r with
  | error e => cases h
  | ok v =>
    cases v with
    | array items => exact congrArg (Except.ok ∘ Json.array) (numbers?_eq_some.mp h)
    | _ => cases h

/-! ## The encodings of a list of numbers -/

theorem read_numbers (ns : List Json.Number) :
    Payload.read (ofNumbers ns) = .ok (.single (ns.map toSingle)) := by
  rw [Payload.read, ofNumbers, ofJson, numbers?_map]

theorem decodeItems_numbers (index : Nat) (ns : List Json.Number) :
    decodeItems index (ns.map .number) = .ok (ns.map viaDouble) := by
  induction ns generalizing index with
  | nil => rfl
  | cons n ns ih =>
    rw [List.map_cons, decodeItems, ih]
    rfl

theorem decode_raw_numbers (ns : List Json.Number) :
    (Payload.raw (ofNumbers ns)).decode = .ok (ns.map viaDouble) :=
  decodeItems_numbers 0 ns

theorem decode_double_numbers (ns : List Json.Number) :
    (Payload.double (ns.map Json.Number.toFloat)).decode = .ok (ns.map viaDouble) := by
  rw [decode, List.map_map]
  rfl

theorem decode_text_numbers {ns : List Json.Number} {s : String}
    (hs : Json.parse s = .ok (ofNumbers ns)) :
    (Payload.raw (.string s)).decode = .ok (ns.map viaDouble) := by
  rw [decode, decodeRaw, decodeText, hs, ofNumbers]
  dsimp only
  rw [numbers?_map]

/-! ## Writing and reading -/

/-- Finite numbers are written as an array of numbers. -/
theorem toJson_double {v : List Float} (h : ∀ x ∈ v, x.isFinite = true) :
    (Payload.double v).toJson = ofNumbers (v.map .float) := by
  rw [toJson, ofNumbers, List.map_map]
  refine congrArg Json.array (List.map_congr_left fun x hx => ?_)
  rw [Json.ofFloat, if_pos (h x hx), Function.comp_apply]

/-- A binary32 number is written as the binary64 number that it is widened to. -/
theorem toJson_single (v : Embedding) :
    (Payload.single v).toJson = (Payload.double (v.map widen)).toJson := by
  rw [toJson, toJson, Embedding.toJson, List.map_map]
  rfl

/-- Binary64 numbers are read as the binary32 numbers that they decode to. -/
theorem read_toJson_double {v : List Float} (h : ∀ x ∈ v, x.isFinite = true) :
    Payload.read (Payload.double v).toJson = .ok (.single (v.map narrow)) := by
  rw [toJson_double h, read_numbers, List.map_map]
  rfl

theorem read_toJson_single {v : Embedding} (h : ∀ x ∈ v, x.isFinite = true) :
    Payload.read (Payload.single v).toJson = .ok (.single v) := by
  have hwide : ∀ x ∈ v.map widen, x.isFinite = true :=
    List.forall_mem_map.mpr fun x hx => isFinite_widen (h x hx)
  have hback : (v.map widen).map narrow = v := by
    rw [List.map_map]
    exact (List.map_congr_left fun x hx => narrow_widen (h x hx)).trans (List.map_id v)
  rw [toJson_single, read_toJson_double hwide, hback]

/-- An array of numbers decodes to these numbers, each rounded to binary64 and then to binary32,
whichever way it is stored. A finite vector of either format that is written and read again becomes
one of binary32 numbers and decodes to what it did before. -/
theorem decode_alike :
    (∀ ns : List Json.Number, (∀ n ∈ ns, Kept n) →
      Payload.read (ofNumbers ns) = .ok (.single (ns.map viaDouble)) ∧
      (Payload.single (ns.map viaDouble)).decode = .ok (ns.map viaDouble) ∧
      (Payload.raw (ofNumbers ns)).decode = .ok (ns.map viaDouble) ∧
      (Payload.double (ns.map Json.Number.toFloat)).decode = .ok (ns.map viaDouble) ∧
      ∀ s, Json.parse s = .ok (ofNumbers ns) →
        (Payload.raw (.string s)).decode = .ok (ns.map viaDouble)) ∧
    (∀ v : Embedding, (∀ x ∈ v, x.isFinite = true) →
      (Payload.single v).decode = .ok v ∧
      Payload.read (Payload.single v).toJson = .ok (.single v)) ∧
    ∀ v : List Float, (∀ x ∈ v, x.isFinite = true) →
      (Payload.double v).decode = .ok (v.map narrow) ∧
      Payload.read (Payload.double v).toJson = .ok (.single (v.map narrow)) ∧
      (Payload.single (v.map narrow)).decode = .ok (v.map narrow) := by
  refine ⟨fun ns hns => ?_, fun v hv => ⟨rfl, read_toJson_single hv⟩,
    fun v hv => ⟨rfl, read_toJson_double hv, rfl⟩⟩
  have hread : Payload.read (ofNumbers ns) = .ok (.single (ns.map viaDouble)) := by
    rw [read_numbers, map_toSingle hns]
  exact ⟨hread, rfl, decode_raw_numbers ns, decode_double_numbers ns,
    fun s hs => decode_text_numbers hs⟩

/-- The least integer that is kept, one that binary32 does not hold, and a number beyond its
range. -/
theorem decode_alike_bounds :
    let ns : List Json.Number := [.integer (-2 ^ 53), .integer 16777217, .float 1e39]
    Payload.read (ofNumbers ns) = .ok (.single (ns.map viaDouble)) ∧
    (Payload.raw (.string "[-9007199254740992, 16777217, 1e39]")).decode =
      .ok (ns.map viaDouble) ∧
    ns.map viaDouble = [-9007199254740992, 16777216, 1 / 0] ∧
    Payload.read (Payload.single [0.1, negZero]).toJson = .ok (.single [0.1, negZero]) ∧
    Payload.read (Payload.double [0.1, 1e39]).toJson =
      .ok (.single ([0.1, 1e39].map narrow)) := by
  intro ns
  have hkept : ∀ n ∈ ns, Kept n := by
    simp [ns, Kept]
  have hparse : Json.parse "[-9007199254740992, 16777217, 1e39]" = .ok (ofNumbers ns) :=
    eq_ofNumbers (by decide +kernel)
  obtain ⟨hnumbers, hsingle, hdouble⟩ := decode_alike
  obtain ⟨hread, -, -, -, htext⟩ := hnumbers ns hkept
  exact ⟨hread, htext _ hparse, by decide +kernel, (hsingle _ (by decide +kernel)).2,
    (hdouble _ (by decide +kernel)).2.1⟩

end Payload

end EmbeddingSearch
