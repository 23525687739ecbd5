import EmbeddingSearch.Proofs.Store.Encodings

/-!
# What decodes, and what is said of the rest

A raw value is a vector if it is an array of numbers or the text of one. Everything else is refused,
with what is known about it: the place and the kind of the first element that is no number, or the
beginning of the value.

## Contents
- `Payload.Lists`: the numbers that a value lists.
- `Payload.items_cases`: an array lists numbers, or has a first element that is none.
- `Payload.decodeItems_first`, `Payload.decodeText_cases`: what is said of arrays and of texts.
- `Payload.decode_eq_ok`: what decodes, and to what.
- `LongestPrefix`: what is shown of a value.
-/

namespace EmbeddingSearch

namespace Payload

/-! ## Numbers -/

/-- The numbers that a value lists, as an array of them or as the text of one. -/
inductive Lists : Json → List Json.Number → Prop where
  | array (ns : List Json.Number) : Lists (ofNumbers ns) ns
  | text {s : String} {ns : List Json.Number} (parsed : Json.parse s = .ok (ofNumbers ns)) :
    Lists (.string s) ns

theorem kind_eq_number {v : Json} : v.kind = .number ↔ ∃ n, v = .number n := by
  constructor
  · intro h
    cases v with
    | number n => exact ⟨n, rfl⟩
    | _ => cases h
  · rintro ⟨n, rfl⟩
    rfl

/-- An array lists numbers, or one of its elements is the first that is no number. -/
theorem items_cases (items : List Json) :
    (∃ ns : List Json.Number, items = ns.map .number) ∨
      ∃ before v after, items = before ++ v :: after ∧
        (∀ u ∈ before, u.kind = .number) ∧ v.kind ≠ .number := by
  induction items with
  | nil => exact .inl ⟨[], rfl⟩
  | cons v items ih =>
    by_cases hv : v.kind = .number
    · rcases ih with ⟨ns, rfl⟩ | ⟨before, u, after, rfl, hbefore, hu⟩
      · obtain ⟨n, rfl⟩ := kind_eq_number.mp hv
        exact .inl ⟨n :: ns, rfl⟩
      · exact .inr ⟨v :: before, u, after, rfl, List.forall_mem_cons.mpr ⟨hv, hbefore⟩, hu⟩
    · exact .inr ⟨[], v, items, rfl, List.forall_mem_nil _, hv⟩

/-! ## Arrays and texts -/

/-- An array fails at the first element that is no number, whatever comes after it. -/
theorem decodeItems_first (index : Nat) {before : List Json}
    (hbefore : ∀ u ∈ before, u.kind = .number) {v : Json} (hv : v.kind ≠ .number)
    (after : List Json) :
    decodeItems index (before ++ v :: after) =
      .error (.invalidElement (index + before.length) v.kind) := by
  induction before generalizing index with
  | nil =>
    cases v with
    | number n => exact absurd rfl hv
    | _ => rfl
  | cons u before ih =>
    obtain ⟨hu, hrest⟩ := List.forall_mem_cons.mp hbefore
    obtain ⟨n, rfl⟩ := kind_eq_number.mp hu
    rw [List.cons_append, decodeItems, ih (index + 1) hrest, List.length_cons, Nat.add_right_comm,
      Nat.add_assoc]
    rfl

/-- A text lists numbers, and these are its vector, or it is refused. -/
theorem decodeText_cases (s : String) :
    (∃ ns, Json.parse s = .ok (ofNumbers ns) ∧ decodeText s = .ok (ns.map viaDouble)) ∨
      (∀ ns, Json.parse s ≠ .ok (ofNumbers ns)) ∧
        ∃ cause, decodeText s = .error (.invalidText cause) := by
  rw [decodeText]
  cases hparse : Json.parse s with
  | error e => exact .inr ⟨fun ns h => (by cases h), e.message, rfl⟩
  | ok v =>
    cases v with
    | array items =>
      cases hitems : numbers? items with
      | none =>
        refine .inr ⟨fun ns h => ?_, "invalid type", by dsimp only; rw [hitems]⟩
        obtain rfl : items = ns.map .number := Json.array.inj (Except.ok.inj h)
        rw [numbers?_map] at hitems
        cases hitems
      | some ns =>
        refine .inl ⟨ns, ?_, by dsimp only; rw [hitems]⟩
        rw [ofNumbers, numbers?_eq_some.mp hitems]
    | _ => exact .inr ⟨fun ns h => (by cases h), "invalid type", rfl⟩

/-- A raw value decodes if it lists numbers, and then to these, each as binary32. -/
theorem decode_eq_ok {v : Json} {x : Embedding} :
    (Payload.raw v).decode = .ok x ↔ ∃ ns, Lists v ns ∧ x = ns.map viaDouble := by
  constructor
  · intro h
    rw [decode] at h
    cases v with
    | array items =>
      rw [decodeRaw] at h
      rcases items_cases items with ⟨ns, rfl⟩ | ⟨before, v, after, rfl, hbefore, hv⟩
      · rw [decodeItems_numbers] at h
        exact ⟨ns, .array ns, (Except.ok.inj h).symm⟩
      · rw [decodeItems_first 0 hbefore hv] at h
        cases h
    | string s =>
      rw [decodeRaw] at h
      rcases decodeText_cases s with ⟨ns, hparse, hdecode⟩ | ⟨-, cause, hdecode⟩
      · exact ⟨ns, .text hparse, Except.ok.inj (h.symm.trans hdecode)⟩
      · cases h.symm.trans hdecode
    | _ => cases h
  · rintro ⟨ns, hlists, rfl⟩
    cases hlists with
    | array => exact decode_raw_numbers ns
    | text parsed => exact decode_text_numbers parsed

/-- A text that lists no numbers is refused as a text. -/
theorem decode_text_error {s : String} (h : ∀ ns, ¬ Lists (.string s) ns) :
    ∃ cause, (Payload.raw (.string s)).decode = .error (.invalidText cause) := by
  rcases decodeText_cases s with ⟨ns, hparse, -⟩ | ⟨-, hdecode⟩
  · exact absurd (.text hparse) (h ns)
  · exact hdecode

end Payload

/-! ## What is shown of a value -/

/-- Whether a text is the longest that has at most so many characters and with which the other one
begins. -/
structure LongestPrefix (limit : Nat) (shown text : String) : Prop where
  starts : shown.toList <+: text.toList
  length_le : shown.toList.length ≤ limit
  longest : ∀ cs, cs <+: text.toList → cs.length ≤ limit → cs <+: shown.toList

theorem longestPrefix_take (limit : Nat) (text : String) :
    LongestPrefix limit (String.ofList (text.toList.take limit)) text := by
  constructor
  · rw [String.toList_ofList]
    exact List.take_prefix limit _
  · rw [String.toList_ofList]
    exact List.length_take_le limit _
  · intro cs hcs hlength
    rw [String.toList_ofList]
    exact List.prefix_take_iff.mpr ⟨hcs, hlength⟩

/-- A number, a truth value or an object is refused with its kind and its beginning. -/
theorem Payload.decode_shapeless {v : Json}
    (h : v.kind = .number ∨ v.kind = .bool ∨ v.kind = .object) :
    ∃ preview, (Payload.raw v).decode = .error (.unsupportedShape v.kind preview) ∧
      LongestPrefix previewChars preview v.text := by
  refine ⟨_, ?_, longestPrefix_take previewChars v.text⟩
  cases v with
  | number n => rfl
  | bool b => rfl
  | object members => rfl
  | _ => rcases h with h | h | h <;> cases h

end EmbeddingSearch
