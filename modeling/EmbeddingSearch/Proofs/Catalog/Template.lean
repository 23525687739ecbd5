import Mathlib.Data.List.Infix
import Mathlib.Data.List.Nodup
import EmbeddingSearch.Catalog.RecordText

/-!
# Templates

A template is filled by one replacement for each field of the schema, and each of them also runs over
the texts that the ones before it put in. This is compared with the substitution that a template stands
for: one pass over it, from left to right, in which the texts of the fields are only written.

## Contents
- `Field.Plain`, `Legible`: schemas in which at most one name in braces stands at a place.
- `Record.substitute`: the single pass.
- `Record.substitute_perm`: the order of the fields is of no importance for it.
- `Record.replaceAll_substitute`: one more field is put in by a replacement.
- `Record.Settles`, `Record.Braced`, `render_eq_substitute`: when filling a template is the
  substitution.
-/

namespace EmbeddingSearch

/-! ## Names in braces -/

/-- Whether a name has no brace in it. -/
def Field.Plain (f : Field) : Prop := '\x7b' ∉ f.name.toList ∧ '\x7d' ∉ f.name.toList

instance (f : Field) : Decidable f.Plain := inferInstanceAs (Decidable (_ ∧ _))

/-- Whether fields have different names, with no brace in any of them. -/
def Legible (fields : List Field) : Prop :=
  (fields.map Field.name).Nodup ∧ ∀ f ∈ fields, f.Plain

instance (fields : List Field) : Decidable (Legible fields) := inferInstanceAs (Decidable (_ ∧ _))

theorem Legible.perm {fields other : List Field} (h : Legible fields) (hperm : other.Perm fields) :
    Legible other :=
  ⟨(hperm.map Field.name).nodup_iff.mpr h.1, fun f hf => h.2 f (hperm.mem_iff.mp hf)⟩

theorem Legible.sublist {fields other : List Field} (h : Legible fields)
    (hsub : other.Sublist fields) : Legible other :=
  ⟨h.1.sublist (hsub.map Field.name), fun f hf => h.2 f (hsub.subset hf)⟩

namespace Record

theorem placeholder_length (f : Field) : (placeholder f).length = f.name.toList.length + 2 := by
  simp [placeholder]

/-- Two names in braces at the same place are the same name. -/
theorem placeholder_inj {f g : Field} {cs : List Char} (hf : f.Plain) (hg : g.Plain)
    (hfcs : placeholder f <+: cs) (hgcs : placeholder g <+: cs) : f.name = g.name := by
  obtain ⟨s, rfl⟩ := hfcs
  obtain ⟨t, ht⟩ := hgcs
  simp only [placeholder, List.cons_append, List.append_assoc, List.cons.injEq, true_and,
    List.nil_append] at ht
  -- both names end at the first closing brace
  have hnames := congrArg (List.takeWhile (· ≠ '\x7d')) ht
  have takes : ∀ {h : Field} {u : List Char}, h.Plain →
      (h.name.toList ++ '\x7d' :: u).takeWhile (· ≠ '\x7d') = h.name.toList := by
    intro h u hh
    rw [List.takeWhile_append_of_pos, List.takeWhile_cons_of_neg (by simp), List.append_nil]
    intro c hc
    simpa using fun heq : c = '\x7d' => hh.2 (heq ▸ hc)
  rw [takes hg, takes hf] at hnames
  exact (String.toList_inj.mp hnames).symm

theorem eq_of_placeholder {fields : List Field} (hfields : Legible fields) {f g : Field}
    {cs : List Char} (hf : f ∈ fields) (hg : g ∈ fields) (hfcs : placeholder f <+: cs)
    (hgcs : placeholder g <+: cs) : f = g :=
  List.inj_on_of_nodup_map hfields.1 hf hg
    (placeholder_inj (hfields.2 f hf) (hfields.2 g hg) hfcs hgcs)

/-! ## The single pass -/

/-- The text with every name of a field in braces replaced by the text of the field, in one pass from
left to right that does not look at what it puts in. -/
def substitute (r : Record) (fields : List Field) (cs : List Char) : List Char :=
  match cs with
  | [] => []
  | c :: rest =>
    match fields.find? fun f => (placeholder f).isPrefixOf (c :: rest) with
    | some f => (r.fieldText f).toList ++ substitute r fields (rest.drop ((placeholder f).length - 1))
    | none => c :: substitute r fields rest
termination_by cs.length
decreasing_by
  · simp only [List.length_drop, List.length_cons]; omega
  · simp

variable {r : Record} {fields : List Field}

theorem substitute_nil : substitute r fields [] = [] := by rw [substitute]

theorem substitute_placeholder (hfields : Legible fields) {f : Field} (hf : f ∈ fields)
    (cs : List Char) :
    substitute r fields (placeholder f ++ cs) = (r.fieldText f).toList ++ substitute r fields cs := by
  have hfind : fields.find? (fun g => (placeholder g).isPrefixOf (placeholder f ++ cs)) = some f := by
    cases hfound : fields.find? fun g => (placeholder g).isPrefixOf (placeholder f ++ cs) with
    | none =>
      have hnone := List.find?_eq_none.mp hfound f hf
      exact absurd (List.isPrefixOf_iff_prefix.mpr (List.prefix_append _ _)) hnone
    | some g =>
      have hg := List.find?_some hfound
      rw [List.isPrefixOf_iff_prefix] at hg
      rw [eq_of_placeholder hfields hf (List.mem_of_find?_eq_some hfound) (List.prefix_append _ _) hg]
  have hcons : placeholder f ++ cs = '\x7b' :: (f.name.toList ++ ['\x7d'] ++ cs) := rfl
  rw [hcons] at hfind ⊢
  rw [substitute, hfind]
  dsimp only
  congr 2
  exact List.drop_left' (by simp [placeholder])

theorem substitute_cons {c : Char} {cs : List Char}
    (h : ∀ f ∈ fields, ¬ placeholder f <+: c :: cs) :
    substitute r fields (c :: cs) = c :: substitute r fields cs := by
  have hnone : fields.find? (fun f => (placeholder f).isPrefixOf (c :: cs)) = none := by
    rw [List.find?_eq_none]
    intro f hf
    rw [List.isPrefixOf_iff_prefix]
    exact h f hf
  rw [substitute, hnone]

/-- A template is a sequence of names in braces and of other characters. -/
theorem pieces_induction (fields : List Field) {motive : List Char → Prop} (nil : motive [])
    (named : ∀ f ∈ fields, ∀ cs, motive cs → motive (placeholder f ++ cs))
    (cons : ∀ c cs, (∀ f ∈ fields, ¬ placeholder f <+: c :: cs) → motive cs → motive (c :: cs))
    (cs : List Char) : motive cs := by
  induction hn : cs.length using Nat.strongRecOn generalizing cs with
  | ind n ih =>
    cases cs with
    | nil => exact nil
    | cons c rest =>
      by_cases hnamed : ∃ f ∈ fields, placeholder f <+: c :: rest
      · obtain ⟨f, hf, after, hafter⟩ := hnamed
        rw [← hafter] at hn ⊢
        refine named f hf after (ih after.length ?_ after rfl)
        rw [← hn, List.length_append, placeholder_length]
        omega
      · push Not at hnamed
        refine cons c rest hnamed (ih rest.length ?_ rest rfl)
        rw [← hn, List.length_cons]
        omega

/-- The order of the fields is of no importance. -/
theorem substitute_perm {other : List Field} (hfields : Legible fields)
    (hperm : other.Perm fields) (cs : List Char) :
    substitute r other cs = substitute r fields cs := by
  induction cs using pieces_induction fields with
  | nil => rw [substitute_nil, substitute_nil]
  | named f hf cs ih =>
    rw [substitute_placeholder hfields hf,
      substitute_placeholder (hfields.perm hperm) (hperm.mem_iff.mpr hf), ih]
  | cons c cs h ih =>
    rw [substitute_cons h, substitute_cons fun f hf => h f (hperm.mem_iff.mp hf), ih]

/-! ## Names that are left in the text -/

/-- Text with no opening brace is copied. -/
theorem substitute_append {w : List Char} (hw : '\x7b' ∉ w) (cs : List Char) :
    substitute r fields (w ++ cs) = w ++ substitute r fields cs := by
  induction w with
  | nil => rfl
  | cons c w ih =>
    have hc : '\x7b' ≠ c := List.ne_of_not_mem_cons hw
    rw [List.cons_append, substitute_cons, ih (List.not_mem_of_not_mem_cons hw), List.cons_append]
    intro f _ hstart
    exact hc (List.cons_prefix_cons.mp hstart).1

/-- Behind its first brace, a name in braces has no other one that opens. -/
theorem placeholder_rest {f : Field} (hf : f.Plain) : '\x7b' ∉ f.name.toList ++ ['\x7d'] := by
  simpa using hf.1

/-- The name of a field that is not put in is copied, with its braces. -/
theorem substitute_of_not_mem {all : List Field} (hall : Legible all) (hsub : fields ⊆ all)
    {f : Field} (hf : f ∈ all) (hnew : f ∉ fields) (cs : List Char) :
    substitute r fields (placeholder f ++ cs) = placeholder f ++ substitute r fields cs := by
  have hcons : placeholder f ++ cs = '\x7b' :: (f.name.toList ++ ['\x7d'] ++ cs) := rfl
  rw [hcons, substitute_cons, substitute_append (placeholder_rest (hall.2 f hf))]
  · rfl
  · intro g hg hstart
    obtain rfl := eq_of_placeholder hall (hsub hg) hf hstart (hcons ▸ List.prefix_append _ _)
    exact hnew hg

theorem substitute_other {f : Field} (hfields : Legible (fields ++ [f])) (cs : List Char) :
    substitute r fields (placeholder f ++ cs) = placeholder f ++ substitute r fields cs := by
  have hdistinct := hfields.1
  rw [List.map_append, List.nodup_append] at hdistinct
  refine substitute_of_not_mem hfields (List.subset_append_left _ _)
    (List.mem_append_right _ (List.mem_singleton_self f)) ?_ cs
  intro hmem
  exact hdistinct.2.2 _ (List.mem_map_of_mem hmem) _ (List.mem_singleton_self _) rfl

/-- Text with no opening brace that is found behind some text is found there as well when one more
field is put in: a field that is put in begins with such a brace before that. -/
theorem prefix_substitute {f : Field} (hfields : Legible (fields ++ [f])) {w : List Char}
    (hw : '\x7b' ∉ w) (s cs : List Char) (h : w <+: s ++ substitute r fields cs) :
    w <+: s ++ substitute r (fields ++ [f]) cs := by
  induction cs using pieces_induction (fields ++ [f]) generalizing w s with
  | nil => rwa [substitute_nil] at h ⊢
  | named g hg cs ih =>
    rw [substitute_placeholder hfields hg]
    rcases List.mem_append.mp hg with hold | hnew
    · rw [substitute_placeholder (hfields.sublist (List.sublist_append_left _ _)) hold,
        ← List.append_assoc] at h
      rw [← List.append_assoc]
      exact ih hw _ h
    · obtain rfl := List.mem_singleton.mp hnew
      rw [substitute_other hfields] at h
      -- the brace that the name of the new field begins with is not reached
      rcases List.prefix_or_prefix_of_prefix h (List.prefix_append s _) with hws | ⟨t, rfl⟩
      · exact hws.trans (List.prefix_append _ _)
      · rw [List.prefix_append_right_inj] at h
        cases t with
        | nil => simp
        | cons c t =>
          have hc : c = '\x7b' := (List.cons_prefix_cons.mp h).1
          simp [hc] at hw
  | cons c cs hplain ih =>
    rw [substitute_cons fun g hg => hplain g (List.mem_append_left _ hg), List.append_cons] at h
    rw [substitute_cons hplain, List.append_cons]
    exact ih hw _ h

/-- What is left of a name that begins in some text is left when one more field is put in. -/
theorem placeholder_prefix_substitute {f g : Field} (hfields : Legible (fields ++ [f]))
    (hg : g.Plain) {s cs : List Char} (hs : s ≠ [])
    (h : placeholder g <+: s ++ substitute r fields cs) :
    placeholder g <+: s ++ substitute r (fields ++ [f]) cs := by
  cases s with
  | nil => exact absurd rfl hs
  | cons c s =>
    rw [placeholder, List.cons_append, List.cons_prefix_cons] at h ⊢
    exact ⟨h.1, prefix_substitute hfields (placeholder_rest hg) s cs h.2⟩

/-! ## Replacement -/

theorem replaceAll_nil {p q : List Char} : Text.replaceAll p q [] = [] := by rw [Text.replaceAll]

theorem replaceAll_placeholder (f : Field) (q cs : List Char) :
    Text.replaceAll (placeholder f) q (placeholder f ++ cs) =
      q ++ Text.replaceAll (placeholder f) q cs := by
  have hcons : placeholder f ++ cs = '\x7b' :: (f.name.toList ++ ['\x7d'] ++ cs) := rfl
  have hstart := List.isPrefixOf_iff_prefix.mpr (List.prefix_append (placeholder f) cs)
  rw [hcons] at hstart ⊢
  rw [Text.replaceAll, if_pos hstart]
  congr 2
  exact List.drop_left' (by simp [placeholder])

/-- Text in which the pattern does not begin is copied. -/
theorem replaceAll_append {p : List Char} (q u v : List Char)
    (h : ∀ s, s ≠ [] → s <:+ u → ¬ p <+: s ++ v) :
    Text.replaceAll p q (u ++ v) = u ++ Text.replaceAll p q v := by
  induction u with
  | nil => rfl
  | cons c u ih =>
    have hfirst : ¬ p.isPrefixOf (c :: (u ++ v)) = true := by
      rw [List.isPrefixOf_iff_prefix]
      exact h (c :: u) (List.cons_ne_nil c u) List.suffix_rfl
    rw [List.cons_append, Text.replaceAll, if_neg hfirst,
      ih fun s hs htail => h s hs (htail.trans (List.suffix_cons c u)), List.cons_append]

/-- Replacing the name of one more field puts in that field, if the name is not left in the text
then. -/
theorem replaceAll_substitute {f : Field} (hfields : Legible (fields ++ [f])) (cs : List Char)
    (h : ¬ placeholder f <:+: substitute r (fields ++ [f]) cs) :
    Text.replaceAll (placeholder f) (r.fieldText f).toList (substitute r fields cs) =
      substitute r (fields ++ [f]) cs := by
  have hf : f.Plain := hfields.2 f (List.mem_append_right _ (List.mem_singleton_self f))
  -- a name that would be replaced, but begins in text that was put in or copied, is left
  have keeps : ∀ {u cs : List Char}, ¬ placeholder f <:+: u ++ substitute r (fields ++ [f]) cs →
      Text.replaceAll (placeholder f) (r.fieldText f).toList (u ++ substitute r fields cs) =
        u ++ Text.replaceAll (placeholder f) (r.fieldText f).toList (substitute r fields cs) := by
    intro u cs hleft
    refine replaceAll_append _ _ _ fun s hs htail hstart => hleft ?_
    have hinside := (placeholder_prefix_substitute hfields hf hs hstart).isInfix
    obtain ⟨t, rfl⟩ := htail
    rw [List.append_assoc]
    exact hinside.trans (List.suffix_append _ _).isInfix
  induction cs using pieces_induction (fields ++ [f]) with
  | nil => rw [substitute_nil, substitute_nil, replaceAll_nil]
  | named g hg cs ih =>
    rw [substitute_placeholder hfields hg] at h ⊢
    have hrest := ih fun hinside => h (hinside.trans (List.suffix_append _ _).isInfix)
    rcases List.mem_append.mp hg with hold | hnew
    · rw [substitute_placeholder (hfields.sublist (List.sublist_append_left _ _)) hold,
        keeps h, hrest]
    · obtain rfl := List.mem_singleton.mp hnew
      rw [substitute_other hfields, replaceAll_placeholder, hrest]
  | cons c cs hplain ih =>
    rw [substitute_cons hplain] at h ⊢
    have hrest := ih fun hinside => h (hinside.trans (List.suffix_cons c _).isInfix)
    rw [substitute_cons fun g hg => hplain g (List.mem_append_left _ hg)]
    have hcopied := keeps (u := [c]) h
    rw [List.singleton_append, List.singleton_append, hrest] at hcopied
    exact hcopied

/-! ## Filling a template -/

/-- Whether no field is left in the text by its name, once it and the fields before it are put in. -/
def Settles (r : Record) (fields : List Field) (cs : List Char) : Prop :=
  ∀ i (hi : i < fields.length), ¬ placeholder fields[i] <:+: substitute r (fields.take (i + 1)) cs

instance (r : Record) (fields : List Field) (cs : List Char) : Decidable (r.Settles fields cs) :=
  inferInstanceAs (Decidable (∀ i (_ : i < fields.length), _))

theorem Settles.at {before after : List Field} {f : Field} {cs : List Char}
    (h : Settles r (before ++ f :: after) cs) :
    ¬ placeholder f <:+: substitute r (before ++ [f]) cs := by
  have hlength : before.length < (before ++ f :: after).length := by simp
  have hitem : (before ++ f :: after)[before.length] = f := by simp
  have htake : (before ++ f :: after).take (before.length + 1) = before ++ [f] := by
    rw [List.append_cons]
    exact List.take_left' (by simp)
  have hat := h before.length hlength
  rwa [hitem, htake] at hat

/-- The replacements put in the fields one after the other. -/
theorem foldl_substitute (todo : List Field) (hfields : Legible (fields ++ todo)) (cs : List Char)
    (h : Settles r (fields ++ todo) cs) :
    todo.foldl (fun text f => Text.replaceAll (placeholder f) (r.fieldText f).toList text)
      (substitute r fields cs) = substitute r (fields ++ todo) cs := by
  induction todo generalizing fields with
  | nil => rw [List.append_nil, List.foldl_nil]
  | cons f todo ih =>
    have hnext : Legible (fields ++ [f]) :=
      hfields.sublist ((List.sublist_append_left [f] todo).append_left fields)
    have hlist : fields ++ f :: todo = fields ++ [f] ++ todo := List.append_cons fields f todo
    rw [List.foldl_cons, replaceAll_substitute hnext cs h.at, hlist]
    rw [hlist] at hfields h
    exact ih hfields h

theorem substitute_no_fields (cs : List Char) : substitute r [] cs = cs := by
  induction cs with
  | nil => exact substitute_nil
  | cons c cs ih =>
    have hnone : ∀ f ∈ ([] : List Field), ¬ placeholder f <+: c :: cs := fun f hf => by cases hf
    rw [substitute_cons hnone, ih]

theorem fill_eq_substitute (hfields : Legible fields) {t : String}
    (h : Settles r fields t.toList) :
    r.fill fields t = String.ofList (Text.trim (substitute r fields t.toList)) := by
  have hlegible : Legible ([] ++ fields) := hfields
  have hfold := foldl_substitute fields hlegible t.toList h
  rw [substitute_no_fields, List.nil_append] at hfold
  rw [fill, hfold]

/-! ## Templates with no other braces -/

/-- Whether every opening brace of a template is that of a field's name in braces. -/
def Braced (fields : List Field) (cs : List Char) : Prop :=
  ∀ s ∈ cs.tails, s.head? = some '\x7b' → ∃ f ∈ fields, placeholder f <+: s

instance (fields : List Field) (cs : List Char) : Decidable (Braced fields cs) :=
  inferInstanceAs (Decidable (∀ s ∈ cs.tails, _))

theorem Braced.perm {other : List Field} {cs : List Char} (h : Braced fields cs)
    (hperm : other.Perm fields) : Braced other cs := by
  intro s hs hopen
  obtain ⟨f, hf, hname⟩ := h s hs hopen
  exact ⟨f, hperm.mem_iff.mpr hf, hname⟩

theorem Braced.of_append {u cs : List Char} (h : Braced fields (u ++ cs)) : Braced fields cs := by
  intro s hs
  rw [List.mem_tails] at hs
  exact h s ((List.mem_tails _ _).mpr (hs.trans (List.suffix_append u cs)))

/-- A name in braces does not begin in text with no opening brace. -/
theorem infix_of_append {f : Field} {w v : List Char} (hw : '\x7b' ∉ w)
    (h : placeholder f <:+: w ++ v) : placeholder f <:+: v := by
  induction w with
  | nil => exact h
  | cons c w ih =>
    rw [List.cons_append, List.infix_cons_iff] at h
    rcases h with hstart | hrest
    · exact absurd (List.cons_prefix_cons.mp hstart).1 (List.ne_of_not_mem_cons hw)
    · exact ih (List.not_mem_of_not_mem_cons hw) hrest

/-- Where every opening brace of the template is that of a name and no field puts one in, no name of a
field that is put in is left. -/
theorem not_infix_substitute {all : List Field} (hall : Legible all)
    (htexts : ∀ f ∈ all, '\x7b' ∉ (r.fieldText f).toList) (hfields : Legible fields)
    (hsub : fields ⊆ all) {f : Field} (hf : f ∈ fields) {cs : List Char} (h : Braced all cs) :
    ¬ placeholder f <:+: substitute r fields cs := by
  induction cs using pieces_induction all with
  | nil =>
    rw [substitute_nil, List.infix_nil]
    exact List.cons_ne_nil _ _
  | named g hg cs ih =>
    intro hinside
    by_cases hput : g ∈ fields
    · rw [substitute_placeholder hfields hput] at hinside
      exact ih h.of_append (infix_of_append (htexts g hg) hinside)
    · have hcons : placeholder g ++ substitute r fields cs =
          '\x7b' :: (g.name.toList ++ ['\x7d'] ++ substitute r fields cs) := rfl
      rw [substitute_of_not_mem hall hsub hg hput, hcons, List.infix_cons_iff] at hinside
      rcases hinside with hstart | hrest
      · obtain rfl := eq_of_placeholder hall (hsub hf) hg hstart (hcons ▸ List.prefix_append _ _)
        exact hput hf
      · exact ih h.of_append (infix_of_append (placeholder_rest (hall.2 g hg)) hrest)
  | cons c cs hplain ih =>
    intro hinside
    rw [substitute_cons fun g hg => hplain g (hsub hg), List.infix_cons_iff] at hinside
    rcases hinside with hstart | hrest
    · obtain rfl : '\x7b' = c := (List.cons_prefix_cons.mp hstart).1
      obtain ⟨g, hg, hname⟩ := h _ ((List.mem_tails _ _).mpr List.suffix_rfl) rfl
      exact hplain g hg hname
    · exact ih (h.of_append (u := [c])) hrest

theorem settles_of_braced (hfields : Legible fields)
    (htexts : ∀ f ∈ fields, '\x7b' ∉ (r.fieldText f).toList) {cs : List Char}
    (h : Braced fields cs) : Settles r fields cs := by
  intro i hi
  have hsub := List.take_sublist (i + 1) fields
  refine not_infix_substitute hfields htexts (hfields.sublist hsub) hsub.subset ?_ h
  exact List.mem_take_iff_getElem.mpr ⟨i, by omega, rfl⟩

end Record

/-- A template that is not empty gives the text of the single pass over it, without the white space at
its ends, whichever order the fields of the schema have: what the fields put in is not looked at
again, as long as no replacement leaves a name of its own field in the text. None does where every
opening brace of the template is that of a name, and the texts of the fields have none. -/
theorem render_eq_substitute {r : Record} {d : Dataset} (hfields : Legible d.fields)
    {t : String} (ht : t.isEmpty = false) (maxFieldChars : Nat) :
    (∀ fields : List Field, fields.Perm d.fields → r.Settles fields t.toList →
      r.render { d with fields := fields } (some t) maxFieldChars =
        String.ofList (Text.trim (r.substitute d.fields t.toList))) ∧
    ((∀ f ∈ d.fields, '\x7b' ∉ (r.fieldText f).toList) → Record.Braced d.fields t.toList →
      ∀ fields : List Field, fields.Perm d.fields → r.Settles fields t.toList) := by
  constructor
  · intro fields hperm hsettles
    have hrender : r.render { d with fields := fields } (some t) maxFieldChars = r.fill fields t := by
      simp only [Record.render, ht, Bool.false_eq_true, if_false]
    rw [hrender, Record.fill_eq_substitute (hfields.perm hperm) hsettles,
      Record.substitute_perm hfields hperm]
  · intro htexts hbraced fields hperm
    exact Record.settles_of_braced (hfields.perm hperm)
      (fun f hf => htexts f (hperm.mem_iff.mp hf)) (hbraced.perm hperm)

/-- A template with two fields, of which the second one of the schema comes first: one record has a
brace in the text that is put in last, the other one has none. -/
theorem render_eq_substitute_reversed :
    let title : Field := ⟨"title", .text, true⟩
    let views : Field := ⟨"views", .number, false⟩
    let d : Dataset := ⟨"A", "a", [title, views]⟩
    let r : Record := ⟨"r", [("title", .string "{views}"), ("views", .number (.integer 12))]⟩
    let s : Record := ⟨"s", [("title", .string "Rome"), ("views", .number (.integer 7))]⟩
    let t := " {title} ({views}) "
    Legible d.fields ∧ t.isEmpty = false ∧ [views, title].Perm d.fields ∧
      (r.Settles [views, title] t.toList ∧
        r.render { d with fields := [views, title] } (some t) 0 = "{views} (12)") ∧
      (∀ f ∈ d.fields, '\x7b' ∉ (s.fieldText f).toList) ∧ Record.Braced d.fields t.toList ∧
        s.Settles [views, title] t.toList := by
  intro title views d r s t
  have hlegible : Legible d.fields := by decide
  have hsettles : r.Settles [views, title] t.toList := by decide +kernel
  have hperm : [views, title].Perm d.fields := List.Perm.swap _ _ _
  have htexts : ∀ f ∈ d.fields, '\x7b' ∉ (s.fieldText f).toList := by decide +kernel
  have hbraced : Record.Braced d.fields t.toList := by decide +kernel
  refine ⟨hlegible, by decide, hperm, ⟨hsettles, ?_⟩, htexts, hbraced, ?_⟩
  · rw [(render_eq_substitute hlegible (by decide) 0).1 _ hperm hsettles]
    decide +kernel
  · exact (render_eq_substitute hlegible (by decide) 0).2 htexts hbraced _ hperm

/-- In the other order the text of the first field is expanded. -/
example :
    let d : Dataset := ⟨"A", "a", [⟨"title", .text, true⟩, ⟨"views", .number, false⟩]⟩
    let r : Record := ⟨"r", [("title", .string "{views}"), ("views", .number (.integer 12))]⟩
    r.render d (some " {title} ({views}) ") 0 = "12 (12)" := by
  decide +kernel

end EmbeddingSearch
