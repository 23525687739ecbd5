import Mathlib.Data.List.Chain
import Mathlib.Data.List.TakeWhile
import EmbeddingSearch.Text.Markup

/-!
# What is left of rich text

Read from the left, a text is made of tags and of characters that belong to none. Stripping it shows a
blank for each tag, one blank for each run of blanks, and no white space at the ends. In what is left
there is nothing more to strip.

## Contents
- `Part`, `Reads`: the tags and the other characters of a text.
- `Collapses`, `Trims`: runs of blanks, and white space at the ends.
- `Reads.untagged_eq`, `Collapses.squeeze_eq`, `Trims.trim_eq`: what each step gives is determined;
  `exists_reads`, `collapses_squeeze`, `trims_trim`: it always gives something.
- `Plain`: texts with nothing to strip; `Plain.strip_eq`: they are left as they are.
- `tags_removed_exactly`: all of this for any text.
-/

namespace EmbeddingSearch

namespace Text

/-! ## Tags -/

/-- A part of a text. -/
inductive Part where
  /-- A character that belongs to no tag. -/
  | char (c : Char)
  /-- A tag, by the characters between its brackets. -/
  | tag (inside : List Char)
deriving DecidableEq

/-- What is shown for a part. -/
def Part.shown : Part → Char
  | char c => c
  | tag _ => ' '

/-- The character of a part that is no tag. -/
def Part.char? : Part → Option Char
  | char c => some c
  | tag _ => none

theorem isBlank_blank : isBlank ' ' = true := by decide

/-- A tag is shown as a blank, so all that is shown and is no white space is no part of a tag. -/
theorem Part.filter_shown (parts : List Part) :
    (parts.map shown).filter (fun c => !isBlank c) =
      (parts.filterMap char?).filter fun c => !isBlank c := by
  induction parts with
  | nil => rfl
  | cons part parts ih =>
    cases part with
    | char c => simp only [List.map_cons, List.filterMap_cons, shown, char?, List.filter_cons, ih]
    | tag inside =>
      rw [List.map_cons, shown, List.filter_cons_of_neg (by simp [isBlank_blank]), ih]
      rfl

/-- The parts of a text, from the left. A tag goes from a `<` to the first `>` after it; a `<` with
no `>` after it opens none, and neither does anything behind it. -/
inductive Reads : List Char → List Part → Prop where
  | nil : Reads [] []
  | char {c cs parts} (plain : c ≠ '<') (rest : Reads cs parts) : Reads (c :: cs) (.char c :: parts)
  | tag {inside cs parts} (first : '>' ∉ inside) (rest : Reads cs parts) :
    Reads ('<' :: (inside ++ '>' :: cs)) (.tag inside :: parts)
  | unclosed {cs} (unclosed : '>' ∉ cs) : Reads ('<' :: cs) (('<' :: cs).map .char)

/-- Whether one of two characters in this order opens a tag that the other one may close. -/
def Encloses (c d : Char) : Prop := c = '<' ∧ d = '>'

theorem afterTag?_eq_some {cs rest : List Char} :
    afterTag? cs = some rest ↔ ∃ inside, '>' ∉ inside ∧ cs = inside ++ '>' :: rest := by
  induction cs with
  | nil => simp [afterTag?]
  | cons c cs ih =>
    rw [afterTag?]
    by_cases hc : c = '>'
    · subst hc
      rw [if_pos rfl]
      constructor
      · intro h
        obtain rfl := Option.some.inj h
        exact ⟨[], List.not_mem_nil, rfl⟩
      · rintro ⟨inside, hinside, h⟩
        cases inside with
        | nil => rw [(List.cons.inj h).2]
        | cons d inside => exact absurd (List.cons.inj h).1 (List.ne_of_not_mem_cons hinside)
    · rw [if_neg hc, ih]
      constructor
      · rintro ⟨inside, hinside, rfl⟩
        exact ⟨c :: inside, List.not_mem_cons_of_ne_of_not_mem (Ne.symm hc) hinside, rfl⟩
      · rintro ⟨inside, hinside, h⟩
        cases inside with
        | nil => exact absurd (List.cons.inj h).1 hc
        | cons d inside =>
          exact ⟨inside, List.not_mem_of_not_mem_cons hinside, (List.cons.inj h).2⟩

theorem afterTag?_eq_none {cs : List Char} : afterTag? cs = none ↔ '>' ∉ cs := by
  induction cs with
  | nil => simp [afterTag?]
  | cons c cs ih =>
    rw [afterTag?]
    by_cases hc : c = '>'
    · simp [hc]
    · rw [if_neg hc, ih, List.mem_cons, not_or]
      exact (and_iff_right (Ne.symm hc)).symm

/-- Every text has its parts. -/
theorem exists_reads (cs : List Char) : ∃ parts, Reads cs parts := by
  induction cs using untagged.induct with
  | case1 => exact ⟨[], .nil⟩
  | case2 rest after h ih =>
    obtain ⟨inside, hinside, rfl⟩ := afterTag?_eq_some.mp h
    obtain ⟨parts, hparts⟩ := ih
    exact ⟨_, .tag hinside hparts⟩
  | case3 rest h => exact ⟨_, .unclosed (afterTag?_eq_none.mp h)⟩
  | case4 c rest hc ih =>
    obtain ⟨parts, hparts⟩ := ih
    exact ⟨_, .char hc hparts⟩

namespace Reads

variable {cs : List Char} {parts : List Part}

/-- What is shown for the parts of a text. -/
theorem untagged_eq (h : Reads cs parts) : untagged cs = parts.map Part.shown := by
  induction h with
  | nil => rw [untagged]; rfl
  | char plain rest ih => rw [untagged, if_neg plain, ih, List.map_cons, Part.shown]
  | @tag inside cs parts first rest ih =>
    have hafter : afterTag? (inside ++ '>' :: cs) = some cs :=
      afterTag?_eq_some.mpr ⟨inside, first, rfl⟩
    rw [untagged, if_pos rfl]
    split
    · next after h =>
      obtain rfl := Option.some.inj (hafter.symm.trans h)
      rw [ih, List.map_cons, Part.shown]
    · next h => cases hafter.symm.trans h
  | @unclosed cs unclosed =>
    rw [untagged, if_pos rfl]
    split
    · next after h => cases (afterTag?_eq_none.mpr unclosed).symm.trans h
    · rw [List.map_map]
      exact (List.map_id _).symm

/-- In what is shown, no `<` has a `>` behind it. -/
theorem pairwise_shown (h : Reads cs parts) :
    (parts.map Part.shown).Pairwise fun c d => ¬ Encloses c d := by
  induction h with
  | nil => exact List.Pairwise.nil
  | char plain rest ih => exact List.pairwise_cons.mpr ⟨fun d _ hd => plain hd.1, ih⟩
  | tag first rest ih =>
    exact List.pairwise_cons.mpr ⟨fun d _ hd => absurd hd.1 (by decide : ' ' ≠ '<'), ih⟩
  | @unclosed cs unclosed =>
    have hshown : (('<' :: cs).map Part.char).map Part.shown = '<' :: cs := by
      rw [List.map_map]
      exact List.map_id _
    rw [hshown]
    refine List.pairwise_of_forall_mem_list ?_
    rintro c - d hd ⟨-, rfl⟩
    rcases List.mem_cons.mp hd with h | h
    · cases h
    · exact unclosed h

end Reads

/-! ## Runs of blanks -/

/-- A text with every run of blanks made one blank. -/
inductive Collapses : List Char → List Char → Prop where
  | nil : Collapses [] []
  | other {c cs ds} (other : c ≠ ' ') (rest : Collapses cs ds) : Collapses (c :: cs) (c :: ds)
  | run {cs ds} (n : Nat) (last : cs.head? ≠ some ' ') (rest : Collapses cs ds) :
    Collapses (List.replicate (n + 1) ' ' ++ cs) (' ' :: ds)

theorem squeeze_cons_of_ne {c : Char} {cs : List Char} (h : ¬ (c = ' ' ∧ cs.head? = some ' ')) :
    squeeze (c :: cs) = c :: squeeze cs := by
  cases cs with
  | nil => rfl
  | cons d cs =>
    rw [squeeze, if_neg]
    simpa using h

theorem squeeze_blanks (cs : List Char) : squeeze (' ' :: ' ' :: cs) = squeeze (' ' :: cs) := by
  rw [squeeze]
  rfl

theorem Collapses.squeeze_eq {cs ds : List Char} (h : Collapses cs ds) : squeeze cs = ds := by
  induction h with
  | nil => rfl
  | other other rest ih => rw [squeeze_cons_of_ne fun h => other h.1, ih]
  | @run cs ds n last rest ih =>
    have hone : squeeze (' ' :: cs) = ' ' :: ds := by
      rw [squeeze_cons_of_ne fun h => last h.2, ih]
    induction n with
    | zero => exact hone
    | succ n ihn => exact (squeeze_blanks _).trans ihn

theorem collapses_squeeze (cs : List Char) : Collapses cs (squeeze cs) := by
  have hsome : ∃ ds, Collapses cs ds := by
    induction cs with
    | nil => exact ⟨[], .nil⟩
    | cons c cs ih =>
      obtain ⟨ds, h⟩ := ih
      by_cases hc : c = ' '
      · subst hc
        cases h with
        | nil => exact ⟨_, .run 0 (by simp) .nil⟩
        | other other rest => exact ⟨_, .run 0 (by simpa using other) (.other other rest)⟩
        | run n last rest => exact ⟨_, .run (n + 1) last rest⟩
      · exact ⟨_, .other hc h⟩
  obtain ⟨ds, h⟩ := hsome
  rwa [h.squeeze_eq]

theorem squeeze_filter (cs : List Char) :
    (squeeze cs).filter (fun c => !isBlank c) = cs.filter fun c => !isBlank c := by
  induction cs using squeeze.induct with
  | case1 => rfl
  | case2 c => rfl
  | case3 c d rest h ih =>
    obtain ⟨rfl, rfl⟩ : c = ' ' ∧ d = ' ' := by simpa using h
    rw [squeeze_blanks, ih]
    rfl
  | case4 c d rest h ih =>
    rw [squeeze, if_neg h, List.filter_cons, List.filter_cons, ih]

theorem squeeze_sublist (cs : List Char) : (squeeze cs).Sublist cs := by
  induction cs using squeeze.induct with
  | case1 => exact List.Sublist.refl _
  | case2 c => exact List.Sublist.refl _
  | case3 c d rest h ih =>
    rw [squeeze, if_pos h]
    exact ih.cons c
  | case4 c d rest h ih =>
    rw [squeeze, if_neg h]
    exact ih.cons_cons c

theorem Collapses.head? {cs ds : List Char} (h : Collapses cs ds) : ds.head? = cs.head? := by
  cases h with
  | nil => rfl
  | other other rest => rfl
  | run n last rest => rfl

/-- No two blanks are left side by side. -/
theorem Collapses.isChain {cs ds : List Char} (h : Collapses cs ds) :
    ds.IsChain fun c d => ¬ (c = ' ' ∧ d = ' ') := by
  induction h with
  | nil => exact .nil
  | other other rest ih =>
    exact List.isChain_cons.mpr ⟨fun d _ hd => other hd.1, ih⟩
  | run n last rest ih =>
    refine List.isChain_cons.mpr ⟨?_, ih⟩
    rintro d hd ⟨-, rfl⟩
    exact last (rest.head? ▸ hd)

/-! ## White space at the ends -/

/-- Whether neither the first nor the last character of a text is white space. -/
structure Bare (cs : List Char) : Prop where
  first : ∀ c ∈ cs.head?, isBlank c = false
  last : ∀ c ∈ cs.getLast?, isBlank c = false

/-- What is left after the leading white space starts with none. -/
theorem head?_dropWhile_blank {cs : List Char} {c : Char} (hc : c ∈ (cs.dropWhile isBlank).head?) :
    isBlank c = false := by
  have hnot := List.head?_dropWhile_not isBlank cs
  rw [hc] at hnot
  exact hnot

/-- A text with the white space at its ends taken away. -/
inductive Trims : List Char → List Char → Prop where
  | intro {before kept after} (hbefore : ∀ c ∈ before, isBlank c = true)
    (hafter : ∀ c ∈ after, isBlank c = true) (bare : Bare kept) :
    Trims (before ++ kept ++ after) kept

theorem dropWhile_blanks {blanks cs : List Char} (hblanks : ∀ c ∈ blanks, isBlank c = true)
    (hcs : ∀ c ∈ cs.head?, isBlank c = false) : (blanks ++ cs).dropWhile isBlank = cs := by
  rw [List.dropWhile_append_of_pos hblanks]
  cases cs with
  | nil => rfl
  | cons c cs =>
    have hc : isBlank c = false := hcs c rfl
    exact List.dropWhile_cons_of_neg (by rw [hc]; exact Bool.false_ne_true)

theorem Bare.reverse {cs : List Char} (h : Bare cs) : Bare cs.reverse :=
  ⟨by rw [List.head?_reverse]; exact h.last, by rw [List.getLast?_reverse]; exact h.first⟩

theorem Trims.trim_eq {cs ds : List Char} (h : Trims cs ds) : trim cs = ds := by
  cases h with
  | @intro before kept after hbefore hafter bare =>
  cases ds with
  | nil =>
    have hall : ∀ c ∈ before ++ [] ++ after, isBlank c = true := by
      intro c hc
      rw [List.append_nil, List.mem_append] at hc
      exact hc.elim (hbefore c) (hafter c)
    rw [trim, List.dropWhile_eq_nil_iff.mpr hall]
    rfl
  | cons d ds =>
    have hfront : (before ++ (d :: ds) ++ after).dropWhile isBlank = d :: ds ++ after := by
      rw [List.append_assoc]
      exact dropWhile_blanks hbefore bare.first
    have hback : (d :: ds ++ after).reverse.dropWhile isBlank = (d :: ds).reverse := by
      rw [List.reverse_append]
      exact dropWhile_blanks (fun c hc => hafter c (List.mem_reverse.mp hc)) bare.reverse.first
    rw [trim, hfront, hback, List.reverse_reverse]

theorem trims_trim (cs : List Char) : Trims cs (trim cs) := by
  generalize hfront : cs.dropWhile isBlank = front
  have hcs : cs = cs.takeWhile isBlank ++ front := by
    rw [← hfront, List.takeWhile_append_dropWhile]
  have hfrontEq : front = trim cs ++ (front.reverse.takeWhile isBlank).reverse := by
    rw [trim, hfront, ← List.reverse_append, List.takeWhile_append_dropWhile, List.reverse_reverse]
  have hbare : Bare (trim cs) := by
    constructor
    · intro c hc
      have hmem : c ∈ (cs.dropWhile isBlank).head? := by
        rw [hfront, hfrontEq, List.head?_append, hc]
        rfl
      exact head?_dropWhile_blank hmem
    · intro c hc
      rw [trim, List.getLast?_reverse] at hc
      exact head?_dropWhile_blank hc
  have htrims := @Trims.intro (cs.takeWhile isBlank) (trim cs)
    (front.reverse.takeWhile isBlank).reverse (fun c hc => List.mem_takeWhile_imp hc)
    (fun c hc => List.mem_takeWhile_imp (List.mem_reverse.mp hc)) hbare
  rwa [List.append_assoc, ← hfrontEq, ← hcs] at htrims

namespace Trims

variable {cs ds : List Char}

theorem bare (h : Trims cs ds) : Bare ds := by
  cases h with
  | intro _ _ bare => exact bare

theorem isInfix (h : Trims cs ds) : ds <:+: cs := by
  cases h with
  | intro => exact ⟨_, _, rfl⟩

/-- All that is no white space is kept. -/
theorem filter_eq (h : Trims cs ds) :
    ds.filter (fun c => !isBlank c) = cs.filter fun c => !isBlank c := by
  cases h with
  | @intro before kept after hbefore hafter bare =>
    have hnil : ∀ blanks : List Char, (∀ c ∈ blanks, isBlank c = true) →
        blanks.filter (fun c => !isBlank c) = [] := by
      intro blanks hblanks
      refine List.filter_eq_nil_iff.mpr fun c hc => ?_
      rw [hblanks c hc]
      exact Bool.false_ne_true
    rw [List.filter_append, List.filter_append, hnil _ hbefore, hnil _ hafter, List.nil_append,
      List.append_nil]

end Trims

/-! ## Texts with nothing to strip -/

/-- A text in which no `<` has a `>` anywhere behind it, no blank has a blank next to it, and neither
end is white space. -/
structure Plain (cs : List Char) : Prop where
  tags : cs.Pairwise fun c d => ¬ Encloses c d
  runs : cs.IsChain fun c d => ¬ (c = ' ' ∧ d = ' ')
  bare : Bare cs

theorem reads_of_pairwise {cs : List Char} (h : cs.Pairwise fun c d => ¬ Encloses c d) :
    Reads cs (cs.map .char) := by
  induction cs with
  | nil => exact .nil
  | cons c cs ih =>
    obtain ⟨hc, hcs⟩ := List.pairwise_cons.mp h
    by_cases hopen : c = '<'
    · subst hopen
      exact .unclosed fun hclose => hc _ hclose ⟨rfl, rfl⟩
    · exact .char hopen (ih hcs)

theorem collapses_of_isChain {cs : List Char} (h : cs.IsChain fun c d => ¬ (c = ' ' ∧ d = ' ')) :
    Collapses cs cs := by
  induction cs with
  | nil => exact .nil
  | cons c cs ih =>
    obtain ⟨hc, hcs⟩ := List.isChain_cons.mp h
    by_cases hblank : c = ' '
    · subst hblank
      exact .run 0 (fun hhead => hc ' ' hhead ⟨rfl, rfl⟩) (ih hcs)
    · exact .other hblank (ih hcs)

theorem trims_of_bare {cs : List Char} (h : Bare cs) : Trims cs cs := by
  have htrims := @Trims.intro [] cs [] (List.forall_mem_nil _) (List.forall_mem_nil _) h
  rwa [List.nil_append, List.append_nil] at htrims

/-- A text with nothing to strip is left as it is. -/
theorem Plain.strip_eq {cs : List Char} (h : Plain cs) : trim (squeeze (untagged cs)) = cs := by
  have hshown : (cs.map Part.char).map Part.shown = cs := by
    rw [List.map_map]
    exact List.map_id _
  rw [(reads_of_pairwise h.tags).untagged_eq, hshown, (collapses_of_isChain h.runs).squeeze_eq,
    (trims_of_bare h.bare).trim_eq]

/-- Stripping leaves nothing to strip. -/
theorem plain_strip (cs : List Char) : Plain (trim (squeeze (untagged cs))) := by
  obtain ⟨parts, hparts⟩ := exists_reads cs
  have hpart := (trims_trim (squeeze (untagged cs))).isInfix
  constructor
  · -- squeezing and trimming only leave characters out, so no two brackets come together
    have hshown := hparts.pairwise_shown
    rw [← hparts.untagged_eq] at hshown
    exact hshown.sublist (hpart.sublist.trans (squeeze_sublist _))
  · exact List.IsChain.infix (collapses_squeeze _).isChain hpart
  · exact (trims_trim _).bare

theorem toList_stripMarkup (s : String) :
    (stripMarkup s).toList = trim (squeeze (untagged s.toList)) := by
  rw [stripMarkup, String.toList_ofList]

/-! ## Rich text -/

/-- What is left of a rich text is what its parts show, with one blank for each run of blanks and no
white space at the ends, and it is no other text. There is nothing in it to strip, it has the
characters outside the tags that are no white space, in their order, and stripping it again changes
nothing. -/
theorem tags_removed_exactly (s : String) :
    (∀ t : String, t = stripMarkup s ↔ ∃ parts squeezed, Reads s.toList parts ∧
      Collapses (parts.map Part.shown) squeezed ∧ Trims squeezed t.toList) ∧
    Plain (stripMarkup s).toList ∧
    (∀ parts, Reads s.toList parts → (stripMarkup s).toList.filter (fun c => !isBlank c) =
      (parts.filterMap Part.char?).filter fun c => !isBlank c) ∧
    stripMarkup (stripMarkup s) = stripMarkup s := by
  refine ⟨fun t => ⟨?_, ?_⟩, ?_, ?_, ?_⟩
  · rintro rfl
    obtain ⟨parts, hparts⟩ := exists_reads s.toList
    refine ⟨parts, squeeze (untagged s.toList), hparts, ?_, ?_⟩
    · rw [← hparts.untagged_eq]
      exact collapses_squeeze _
    · rw [toList_stripMarkup]
      exact trims_trim _
  · rintro ⟨parts, squeezed, hparts, hsqueezed, ht⟩
    apply String.toList_inj.mp
    rw [toList_stripMarkup, hparts.untagged_eq, hsqueezed.squeeze_eq, ht.trim_eq]
  · rw [toList_stripMarkup]
    exact plain_strip _
  · intro parts hparts
    rw [toList_stripMarkup, (trims_trim _).filter_eq, squeeze_filter, hparts.untagged_eq,
      Part.filter_shown]
  · apply String.toList_inj.mp
    rw [toList_stripMarkup, toList_stripMarkup]
    exact (plain_strip _).strip_eq

/-- A bracket inside a tag belongs to it, one outside of all tags is kept, and so is white space that
is no blank. -/
theorem tags_removed_exactly_nested :
    stripMarkup " <a<b>x  >y</a>\u00a0 <z" = "x >y \u00a0 <z" ∧
    (stripMarkup " <a<b>x  >y</a>\u00a0 <z").toList.filter (fun c => !isBlank c) =
      ['x', '>', 'y', '<', 'z'] := by
  have hreads : Reads " <a<b>x  >y</a>\u00a0 <z".toList
      [.char ' ', .tag ['a', '<', 'b'], .char 'x', .char ' ', .char ' ', .char '>', .char 'y',
        .tag ['/', 'a'], .char '\u00a0', .char ' ', .char '<', .char 'z'] :=
    .char (by decide) (@Reads.tag ['a', '<', 'b'] _ _ (by decide) (.char (by decide)
      (.char (by decide) (.char (by decide) (.char (by decide) (.char (by decide)
        (@Reads.tag ['/', 'a'] _ _ (by decide) (.char (by decide) (.char (by decide)
          (@Reads.unclosed ['z'] (by decide)))))))))))
  have hcollapses : Collapses "  x  >y \u00a0 <z".toList " x >y \u00a0 <z".toList :=
    collapses_squeeze _
  have hbare : Bare "x >y \u00a0 <z".toList := by
    constructor
    · rintro c ⟨⟩
      decide
    · rintro c ⟨⟩
      decide
  have htrims : Trims " x >y \u00a0 <z".toList "x >y \u00a0 <z".toList :=
    @Trims.intro [' '] _ [] (List.forall_mem_singleton.mpr isBlank_blank) (List.forall_mem_nil _) hbare
  obtain ⟨hshown, -, hkept, -⟩ := tags_removed_exactly " <a<b>x  >y</a>\u00a0 <z"
  exact ⟨((hshown _).mpr ⟨_, _, hreads, hcollapses, htrims⟩).symm, hkept _ hreads⟩

end Text

end EmbeddingSearch
