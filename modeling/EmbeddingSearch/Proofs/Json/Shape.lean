import EmbeddingSearch.Json.Shape
import EmbeddingSearch.Proofs.Numeric.Conversion
import EmbeddingSearch.Proofs.Store.Rows

/-!
# Reading what was written

A structure is read from an object of written members as soon as each member can be read, however
many of them were left out. The object is in key order and the members were listed in another, so
that it matters which of them is found under a name.

## Contents
- `Sorted.find?_ofList`: what a map from a list holds under a key.
- `Json.lastMember?`: the same for an object of listed members.
- `Json.Shape.Yields`: members that pass their checks and give a structure; one law for each way to
  put a shape together.
- `Json.Shape.read_ofMembers`: the structure is read from the object of these members.
- `Json.readNat_ofNat`, `Json.readInt64_ofInt`, `Json.readFloat_ofFloat`,
  `Json.readFloat32_widen`, `Json.readList_map`: single values.
-/

namespace EmbeddingSearch

/-! ## Maps from lists -/

namespace Sorted

variable {κ β : Type}

theorem lookup_cons_of_ne [BEq κ] [LawfulBEq κ] {k k' : κ} (h : k ≠ k') (x : β)
    (m : List (κ × β)) : ((k', x) :: m).lookup k = m.lookup k := by
  have htest : (k == k') = false := beq_eq_false_iff_ne.mpr h
  rw [List.lookup_cons, htest]

variable [Ord κ]

theorem find?_eq_lookup [BEq κ] [LawfulBEq κ] [Std.LawfulEqOrd κ] (k : κ) (m : List (κ × β)) :
    find? k m = m.lookup k := by
  induction m with
  | nil => rfl
  | cons head rest ih =>
    obtain ⟨k', x⟩ := head
    by_cases h : k = k'
    · subst h
      simp [find?]
    · have hne : compare k k' ≠ .eq := fun heq => h (Std.LawfulEqOrd.eq_of_compare heq)
      rw [lookup_cons_of_ne h, find?, if_neg hne, ih]

theorem ofList_concat (entries : List (κ × β)) (k : κ) (x : β) :
    ofList (entries ++ [(k, x)]) = insert k x (ofList entries) := by
  simp [ofList]

theorem ascending_ofList [Std.TransOrd κ] [Std.LawfulEqOrd κ] (entries : List (κ × β)) :
    Ascending (ofList entries) := by
  induction entries using List.reverseRecOn with
  | nil => exact List.Pairwise.nil
  | append_singleton entries p ih =>
    rw [ofList_concat]
    exact ih.insert p.1 p.2

/-- Of the entries of a key the last one is kept. -/
theorem find?_ofList [BEq κ] [LawfulBEq κ] [Std.LawfulEqOrd κ] (entries : List (κ × β)) (k : κ) :
    find? k (ofList entries) = entries.reverse.lookup k := by
  induction entries using List.reverseRecOn with
  | nil => rfl
  | append_singleton entries p ih =>
    obtain ⟨k', x⟩ := p
    rw [ofList_concat, List.reverse_concat]
    by_cases h : k = k'
    · subst h
      simp [find?_insert_self]
    · have hne : compare k k' ≠ .eq := fun heq => h (Std.LawfulEqOrd.eq_of_compare heq)
      rw [find?_insert_of_ne hne, lookup_cons_of_ne h, ih]

end Sorted

namespace Json

/-! ## Members by name -/

/-- The member that an object has under a name, the last one listed with it. -/
def lastMember? (members : List (String × Json)) (name : String) : Option Json :=
  members.reverse.lookup name

@[simp] theorem lastMember?_nil (name : String) : lastMember? [] name = none := rfl

@[simp] theorem lastMember?_append (ms ns : List (String × Json)) (name : String) :
    lastMember? (ms ++ ns) name = (lastMember? ns name).or (lastMember? ms name) := by
  simp [lastMember?, List.lookup_append]

@[simp] theorem lastMember?_cons (k : String) (v : Json) (ms : List (String × Json))
    (name : String) : lastMember? ((k, v) :: ms) name =
      (lastMember? ms name).or (if name = k then some v else none) := by
  unfold lastMember?
  rw [List.reverse_cons, List.lookup_append]
  by_cases h : name = k
  · subst h
    simp
  · rw [Sorted.lookup_cons_of_ne h, if_neg h]
    rfl

/-! ## Single values -/

variable {α β : Type}

theorem readNat_ofNat {n : Nat} (h : n ≤ maxUnsigned) : readNat (ofNat n) = .ok n := by
  simpa [readNat, ofNat, ofInt] using h

theorem readInt64_ofInt {n : Int} (hlo : -2 ^ 63 ≤ n) (hhi : n < 2 ^ 63) :
    readInt64 (ofInt n) = .ok n := by
  have hrange : ¬(n < -9223372036854775808 ∨ n > 9223372036854775807) := by omega
  simp [readInt64, ofInt, hrange]

theorem readFloat_ofFloat {x : Float} (h : x.isFinite) : readFloat (ofFloat x) = .ok x := by
  simp [readFloat, ofFloat, h]

/-- A binary32 value is written in binary64 and comes back unchanged. -/
theorem readFloat32_widen {x : Float32} (h : x.isFinite) :
    readFloat32 (ofFloat (widen x)) = .ok x := by
  simp [readFloat32, ofFloat, Numeric.isFinite_widen h, Numeric.narrow_widen h]

theorem readList_map {read : Reader α} {write : α → Json} {as : List α}
    (h : ∀ a ∈ as, read (write a) = .ok a) : readList read (.array (as.map write)) = .ok as := by
  show (as.map write).mapM read = .ok as
  induction as with
  | nil => rfl
  | cons a as ih =>
    have hhead := h a List.mem_cons_self
    have htail := ih fun b hb => h b (List.mem_cons_of_mem _ hb)
    rw [List.map_cons, List.mapM_cons, hhead, htail]
    rfl

/-- Only null is read as nothing. -/
theorem readOption_some {read : Reader α} {v : Json} {a : α} (hv : v ≠ .null)
    (h : read v = .ok a) : readOption read v = .ok (some a) := by
  cases v with
  | null => exact absurd rfl hv
  | _ => simp [readOption, h]

/-! ## Structures -/

namespace Shape

/-- Whether the members that a look-up gives all pass their checks and make up a structure. -/
structure Yields (s : Shape α) (get : String → Option Json) (a : α) : Prop where
  passes : ∀ p ∈ s.checks, ∀ v, get p.1 = some v → p.2 v = .ok ()
  result : s.ofMembers get = .ok a

namespace Yields

variable {get : String → Option Json}

theorem map {s : Shape α} {a : α} (f : α → β) (h : s.Yields get a) :
    (f <$> s).Yields get (f a) where
  passes := h.passes
  result := by
    show f <$> s.ofMembers get = .ok (f a)
    rw [h.result]
    rfl

theorem seq {t : Shape (α → β)} {s : Shape α} {g : α → β} {a : α} (ht : t.Yields get g)
    (hs : s.Yields get a) : (t <*> s).Yields get (g a) where
  passes := by
    intro p hp
    rcases List.mem_append.mp hp with hp | hp
    · exact ht.passes p hp
    · exact hs.passes p hp
  result := by
    show (do let g ← t.ofMembers get; let a ← s.ofMembers get; .ok (g a)) = _
    rw [ht.result, hs.result]
    rfl

section Field

variable {name : String} {read : Reader α} {absent : Except Mismatch α}
  {short : Nat → Except Mismatch α} {a : α}

/-- A member that is there has to be read. -/
theorem present (v : Json) (hv : get name = some v) (h : read v = .ok a) :
    (field name read absent short).Yields get a where
  passes := by
    intro p hp w hw
    obtain rfl := List.mem_singleton.mp hp
    obtain rfl : v = w := Option.some.inj (hv.symm.trans hw)
    show (fun _ => ()) <$> read v = .ok ()
    rw [h]
    rfl
  result := by
    simp only [field, hv]
    exact h

/-- A member that was left out has to have a default. -/
theorem leftOut (hv : get name = none) : (field name read (.ok a) short).Yields get a where
  passes := by
    intro p hp w hw
    obtain rfl := List.mem_singleton.mp hp
    exact absurd (hv.symm.trans hw) (Option.some_ne_none w).symm
  result := by simp only [field, hv]

end Field

section Values

variable {name : String}

theorem text {t : String} {absent : Except Mismatch String} {short : Nat → Except Mismatch String}
    (hv : get name = some (.string t)) : (field name readText absent short).Yields get t :=
  .present _ hv rfl

theorem flag {b : Bool} {absent : Except Mismatch Bool} {short : Nat → Except Mismatch Bool}
    (hv : get name = some (.bool b)) : (field name readBool absent short).Yields get b :=
  .present _ hv rfl

theorem count {n : Nat} {absent : Except Mismatch Nat} {short : Nat → Except Mismatch Nat}
    (hv : get name = some (ofNat n)) (h : n ≤ maxUnsigned) :
    (field name readNat absent short).Yields get n :=
  .present _ hv (readNat_ofNat h)

theorem float {x : Float} {absent : Except Mismatch Float} {short : Nat → Except Mismatch Float}
    (hv : get name = some (ofFloat x)) (h : x.isFinite) :
    (field name readFloat absent short).Yields get x :=
  .present _ hv (readFloat_ofFloat h)

end Values

end Yields

/-- Members of distinct names that pass their checks are accepted. -/
theorem checkMembers_eq_ok {s : Shape α} {met : List String} {members : List (String × Json)}
    (hnames : (members.map Prod.fst).Nodup) (hmet : ∀ p ∈ members, p.1 ∉ met)
    (hpass : ∀ p ∈ members, ∀ check, (p.1, check) ∈ s.checks → check p.2 = .ok ()) :
    s.checkMembers met members = .ok () := by
  induction members generalizing met with
  | nil => rfl
  | cons head rest ih =>
    obtain ⟨name, v⟩ := head
    obtain ⟨hfresh, hrest⟩ := List.nodup_cons.mp hnames
    obtain ⟨hhead, hmet⟩ := List.forall_mem_cons.mp hmet
    obtain ⟨hcheck, hpass⟩ := List.forall_mem_cons.mp hpass
    unfold checkMembers
    split
    · exact ih hrest hmet hpass
    · next check hlookup =>
      have hlisted : (name, check) ∈ s.checks := by
        obtain ⟨l, r, heq, -⟩ := List.lookup_eq_some_iff.mp hlookup
        simp [heq]
      rw [if_neg (by simpa using hhead), hcheck check hlisted]
      -- the name just met is none of those that follow
      refine ih hrest ?_ hpass
      intro p hp hmem
      rcases List.mem_cons.mp hmem with heq | hmem
      · exact hfresh (List.mem_map.mpr ⟨p, hp, heq⟩)
      · exact hmet p hp hmem

/-- What the members make up is read from their object. -/
theorem read_ofMembers {s : Shape α} {members : List (String × Json)} {a : α}
    (h : s.Yields (lastMember? members) a) : s.read (Json.ofMembers members) = .ok a := by
  have hascending := Sorted.ascending_ofList members
  have hlookup : (fun name => (Sorted.ofList members).lookup name) = lastMember? members := by
    funext name
    rw [← Sorted.find?_eq_lookup, Sorted.find?_ofList]
    rfl
  have hcheck : s.checkMembers [] (Sorted.ofList members) = .ok () := by
    refine checkMembers_eq_ok hascending.nodup_keys (fun _ _ => List.not_mem_nil) ?_
    intro p hp check hlisted
    refine h.passes _ hlisted p.2 ?_
    rw [← congrFun hlookup p.1, ← Sorted.find?_eq_lookup, hascending.find?_eq_some_iff]
    exact hp
  show (do s.checkMembers [] (Sorted.ofList members)
           s.ofMembers fun name => (Sorted.ofList members).lookup name) = _
  rw [hcheck, hlookup, h.result]
  rfl

end Shape

end Json

end EmbeddingSearch
