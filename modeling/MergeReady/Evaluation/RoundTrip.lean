import MergeReady.Evaluation.FormatParser

/-!
# Parsing and printing formats

`unparse` writes segments back as a format.  Parsing loses nothing of a format and gives segments in
which every text is as long as it can be; on such segments it undoes printing, as long as no text
holds a delimiter that its place gives a meaning.
-/

namespace MergeReady.Evaluation

open MergeReady.Lib MergeReady.Lib.Str

mutual

/-- A segment in the syntax of formats. -/
def unparseSegment : Segment → Str
  | .text t => t
  | .styled content styleStr => '[' :: (content ++ ']' :: '(' :: (styleStr ++ [')']))
  | .conditional inner => '(' :: (unparse inner ++ [')'])

def unparse : List Segment → Str
  | [] => []
  | seg :: segs => unparseSegment seg ++ unparse segs

end

theorem unparse_append (segs segs' : List Segment) :
    unparse (segs ++ segs') = unparse segs ++ unparse segs' := by
  induction segs with
  | nil => rfl
  | cons seg segs ih =>
    rw [List.cons_append, unparse, unparse, ih, List.append_assoc]

@[simp] theorem unparse_textOf (t : Str) : unparse (textOf t) = t := by
  by_cases h : t = []
  · subst h; rfl
  · rw [textOf_of_ne h, unparse, unparseSegment, unparse, List.append_nil]

/-- **Parsing loses nothing.** -/
theorem Parses.unparse_eq {acc r : Str} {out : List Segment} (h : Parses acc r out) :
    unparse out = acc ++ r := by
  induction h with
  | rest hc => cases hc; exact unparse_textOf _
  | styled hc _ ih =>
    cases hc with
    | styled heq =>
      rw [heq, unparse_append, unparse_textOf, unparse, unparseSegment, ih]
      simp [styledTail]
  | conditional hc _ _ ih₁ ih₂ =>
    cases hc with
    | conditional heq =>
      rw [heq, unparse_append, unparse_textOf, unparse, unparseSegment, ih₁, ih₂]
      simp
  | literal hc _ ih =>
    cases hc with
    | openBracket heq => rw [heq, ih]; simp
    | openParen heq => rw [heq, ih]; simp

/-! ## Canonical segments -/

def Segment.IsText (seg : Segment) : Prop := ∃ t, seg = .text t

mutual

def Segment.Canonical : Segment → Prop
  | .text t => t ≠ []
  | .styled _ _ => True
  | .conditional inner => Canonical inner

/-- No text is empty and no two texts stand side by side, at any level. -/
def Canonical : List Segment → Prop
  | [] => True
  | seg :: segs =>
    seg.Canonical ∧ (seg.IsText → ∀ next ∈ segs.head?, ¬ next.IsText) ∧ Canonical segs

end

theorem canonical_textOf (t : Str) : Canonical (textOf t) := by
  by_cases h : t = []
  · subst h; exact True.intro
  · rw [textOf_of_ne h]
    exact ⟨h, by simp, True.intro⟩

theorem canonical_textOf_append {t : Str} {seg : Segment} {segs : List Segment}
    (hseg : ¬ seg.IsText) (h : seg.Canonical) (hs : Canonical segs) :
    Canonical (textOf t ++ seg :: segs) := by
  have hcons : Canonical (seg :: segs) := ⟨h, fun ht => absurd ht hseg, hs⟩
  by_cases ht : t = []
  · subst ht; exact hcons
  · rw [textOf_of_ne ht]
    refine ⟨ht, ?_, hcons⟩
    intro _ next hnext
    cases hnext
    exact hseg

/-- **Parsed segments are canonical.** -/
theorem Parses.canonical {acc r : Str} {out : List Segment} (h : Parses acc r out) :
    Canonical out := by
  induction h with
  | rest hc => exact canonical_textOf _
  | styled hc _ ih => exact canonical_textOf_append (by rintro ⟨t, ht⟩; cases ht) True.intro ih
  | conditional hc _ _ ih₁ ih₂ =>
    exact canonical_textOf_append (by rintro ⟨t, ht⟩; cases ht) ih₁ ih₂
  | literal hc _ ih => exact ih

/-! ## Printing and parsing back -/

/-- The segment holds no delimiter that its place gives a meaning. -/
def Segment.Printable : Segment → Prop
  | .text t => Plain t
  | .styled content styleStr => StyledText content styleStr
  | .conditional inner => inner = [] ∨ ∃ t, inner = [.text t] ∧ ')' ∉ t

/-- The inside of a printable conditional part is parsed back. -/
theorem parses_inner {inner : List Segment} (hc : Canonical inner)
    (hp : (Segment.conditional inner).Printable) :
    ')' ∉ unparse inner ∧ Parses [] (unparse inner) inner := by
  rcases hp with rfl | ⟨t, rfl, ht⟩
  · exact ⟨List.not_mem_nil, Parses.nil []⟩
  · have hne : t ≠ [] := hc.1
    have hun : unparse [.text t] = t := by
      rw [← textOf_of_ne hne, unparse_textOf]
    rw [hun]
    refine ⟨ht, ?_⟩
    obtain ⟨segs, hsegs⟩ := exists_parses [] t
    have h := hsegs.eq_textOf ht
    rw [List.nil_append, textOf_of_ne hne] at h
    rwa [h] at hsegs

/-- A plain text and printable segments that do not start with a text are parsed back. -/
theorem parses_append_unparse {segs : List Segment} (hc : Canonical segs)
    (hp : ∀ seg ∈ segs, seg.Printable) {t : Str} (ht : Plain t)
    (hfirst : t ≠ [] → ∀ next ∈ segs.head?, ¬ next.IsText) :
    Parses [] (t ++ unparse segs) (textOf t ++ segs) := by
  induction segs generalizing t with
  | nil =>
    rw [unparse, List.append_nil, List.append_nil]
    exact .rest (.rest ht)
  | cons seg segs ih =>
    obtain ⟨hseg, hnext, hsegs⟩ := hc
    obtain ⟨hpseg, hpsegs⟩ := List.forall_mem_cons.1 hp
    have hrest : Parses [] (unparse segs) segs := by
      have h := ih hsegs hpsegs Plain.nil (fun h => absurd rfl h)
      rwa [List.nil_append, textOf_nil, List.nil_append] at h
    cases seg with
    | text t' =>
      have htnil : t = [] := by
        by_contra hne
        exact hfirst hne _ rfl ⟨t', rfl⟩
      have h := ih hsegs hpsegs hpseg fun _ => hnext ⟨t', rfl⟩
      rw [textOf_of_ne hseg] at h
      rw [htnil]
      exact h
    | styled content styleStr =>
      have hchunk : ChunkOf (t ++ unparse (.styled content styleStr :: segs))
          (.styled t content styleStr (unparse segs)) := by
        refine .styled ?_ ht hpseg
        simp [unparse, unparseSegment, styledTail]
      exact Parses.styled hchunk hrest
    | conditional inner =>
      obtain ⟨hno, hinner⟩ := parses_inner hseg hpseg
      have hchunk : ChunkOf (t ++ unparse (.conditional inner :: segs))
          (.conditional t (unparse inner) (unparse segs)) := by
        refine .conditional ?_ ht hno
        simp [unparse, unparseSegment]
      exact Parses.conditional hchunk hinner hrest

/-- Canonical segments that can be printed are parsed back. -/
theorem parseSegments_of_printable {segs : List Segment} (hc : Canonical segs)
    (hp : ∀ seg ∈ segs, seg.Printable) : parseSegments (unparse segs) = .ok segs := by
  have h := parses_append_unparse hc hp Plain.nil (fun h => absurd rfl h)
  rw [List.nil_append, textOf_nil, List.nil_append] at h
  exact parseSegments_eq_ok.2 h

/-- **Parsing is lossless and canonical, and undoes printing.** -/
theorem parseSegments_unparse :
    (∀ format, ∃ segs, parseSegments format = .ok segs ∧ unparse segs = format ∧ Canonical segs) ∧
    ∀ segs, Canonical segs → (∀ seg ∈ segs, seg.Printable) →
      parseSegments (unparse segs) = .ok segs := by
  constructor
  · intro format
    obtain ⟨segs, h⟩ := exists_parses [] format
    exact ⟨segs, parseSegments_eq_ok.2 h, h.unparse_eq, h.canonical⟩
  · exact fun segs hc hp => parseSegments_of_printable hc hp

/-- The symbol in a colour, the label, and the numbers of the pull requests when there are any. -/
def labelSegments : List Segment :=
  [.styled "$symbol".toList "bold green".toList, .text " $label".toList,
    .conditional [.text " $pr_ids".toList]]

theorem canonical_labelSegments : Canonical labelSegments := by
  simp [labelSegments, Canonical, Segment.Canonical, Segment.IsText]

theorem printable_labelSegments : ∀ seg ∈ labelSegments, seg.Printable := by
  simp [labelSegments, Segment.Printable, StyledText, Plain]

theorem parseSegments_unparse_label :
    parseSegments (unparse labelSegments) = .ok labelSegments :=
  parseSegments_unparse.2 labelSegments canonical_labelSegments printable_labelSegments

end MergeReady.Evaluation
