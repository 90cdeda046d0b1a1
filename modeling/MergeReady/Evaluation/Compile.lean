import MergeReady.Evaluation.RoundTrip
import MergeReady.Evaluation.StyleSpec

/-!
# Compiling formats

`compileSegments` parses a format, then the contents of its styled parts, and reads their styles.
The parsers cut every text at a delimiter and never panic, so a format is compiled exactly when the
styles in it are safe.
-/

namespace MergeReady.Evaluation

open MergeReady.Lib MergeReady.Lib.Str

inductive CompiledSegment
  | text (t : Str)
  | styled (content : List CompiledSegment) (style : StyleSpec)
  | conditional (inner : List CompiledSegment)

theorem length_unparse_of_parse {format : Str} {segs : List Segment}
    (h : parseSegments format = .ok segs) : (unparse segs).length = format.length := by
  rw [(parseSegments_eq_ok.1 h).unparse_eq, List.nil_append]

mutual

def compileSegments (format : Str) : Fallible (List CompiledSegment) :=
  match _ : parseSegments format with
  | .error p => .error p
  | .ok segs => compileAll segs
termination_by (format.length, 2, 0)
decreasing_by
  rw [length_unparse_of_parse ‹_›]
  exact Prod.Lex.right _ (Prod.Lex.left _ _ (by decide))

/-- `segments.into_iter().map(compile_segment).collect()` -/
def compileAll : List Segment → Fallible (List CompiledSegment)
  | [] => .ok []
  | seg :: segs => do
    let compiled ← compileSegment seg
    let rest ← compileAll segs
    .ok (compiled :: rest)
termination_by segs => ((unparse segs).length, 1, segs.length)
decreasing_by
  · simp only [unparse, List.length_append, List.length_cons, Prod.lex_def]
    omega
  · simp only [unparse, List.length_append, List.length_cons, Prod.lex_def, true_and]
    omega

def compileSegment : Segment → Fallible CompiledSegment
  | .text t => .ok (.text t)
  | .styled content styleStr => do
    let content ← compileSegments content
    let style ← StyleSpec.parse styleStr
    .ok (.styled content style)
  | .conditional inner => do
    let inner ← compileAll inner
    .ok (.conditional inner)
termination_by seg => ((unparseSegment seg).length, 0, 0)
decreasing_by
  · simp only [unparseSegment, List.length_append, List.length_cons, Prod.lex_def]
    omega
  · simp only [unparseSegment, List.length_append, List.length_cons, Prod.lex_def]
    omega

end

/-! ## The styles of a format -/

/-- The style of a styled part. -/
def Chunk.style? : Chunk → Option Str
  | .styled _ _ styleStr _ => some styleStr
  | _ => .none

/-- What is to be read after a chunk. -/
def Chunk.after : Chunk → Option Str
  | .rest _ => .none
  | .styled _ _ _ tail => some tail
  | .conditional _ _ tail => some tail
  | .literal _ tail => some tail

/-- `StyleOf format styleStr` — read from its start, the format has a part with this style. -/
inductive StyleOf : Str → Str → Prop
  | here {r styleStr : Str} {chunk : Chunk} :
      ChunkOf r chunk → chunk.style? = some styleStr → StyleOf r styleStr
  | later {r rest styleStr : Str} {chunk : Chunk} :
      ChunkOf r chunk → chunk.after = some rest → StyleOf rest styleStr → StyleOf r styleStr

/-- `FormatSafe format` — every style in the format is safe. -/
def FormatSafe (format : Str) : Prop := ∀ styleStr, StyleOf format styleStr → StyleSafe styleStr

/-- The styles of a text are that of its chunk and those after the chunk. -/
theorem ChunkOf.styleOf_iff {r styleStr : Str} {chunk : Chunk} (hc : ChunkOf r chunk) :
    StyleOf r styleStr ↔
      chunk.style? = some styleStr ∨ ∃ rest, chunk.after = some rest ∧ StyleOf rest styleStr := by
  constructor
  · intro h
    cases h with
    | here hc' hs =>
      rw [hc.unique hc']
      exact .inl hs
    | later hc' ha hs =>
      rw [hc.unique hc']
      exact .inr ⟨_, ha, hs⟩
  · rintro (hs | ⟨rest, ha, hs⟩)
    · exact .here hc hs
    · exact .later hc ha hs

theorem not_styled_mem_textOf {t content styleStr : Str} :
    Segment.styled content styleStr ∉ textOf t := by
  intro h
  by_cases ht : t = []
  · rw [ht] at h; cases h
  · rw [textOf_of_ne ht, List.mem_singleton] at h; cases h

theorem styled_mem_textOf_append {t content styleStr : Str} {seg : Segment} {out : List Segment} :
    Segment.styled content styleStr ∈ textOf t ++ seg :: out ↔
      Segment.styled content styleStr = seg ∨ Segment.styled content styleStr ∈ out := by
  rw [List.mem_append, List.mem_cons, or_iff_right not_styled_mem_textOf]

/-- The styled parts that the parser gives are those of the format. -/
theorem Parses.styleOf_iff {acc r : Str} {out : List Segment} (h : Parses acc r out)
    {styleStr : Str} : StyleOf r styleStr ↔ ∃ content, Segment.styled content styleStr ∈ out := by
  induction h with
  | rest hc => simp [hc.styleOf_iff, Chunk.style?, Chunk.after, not_styled_mem_textOf]
  | styled hc _ ih =>
    simp only [hc.styleOf_iff, Chunk.style?, Chunk.after, styled_mem_textOf_append]
    constructor
    · rintro (hs | ⟨rest, hr, hs⟩)
      · cases hs
        exact ⟨_, .inl rfl⟩
      · cases hr
        obtain ⟨content, hmem⟩ := ih.1 hs
        exact ⟨content, .inr hmem⟩
    · rintro ⟨content, heq | hmem⟩
      · cases heq
        exact .inl rfl
      · exact .inr ⟨_, rfl, ih.2 ⟨content, hmem⟩⟩
  | conditional hc _ _ _ ih =>
    simp [hc.styleOf_iff, Chunk.style?, Chunk.after, not_styled_mem_textOf, ih]
  | literal hc _ ih => simp [hc.styleOf_iff, Chunk.style?, Chunk.after, ih]

/-! ## What the parser gives -/

/-- The parts of a format have no parts of their own but for the contents of the styled ones. -/
def Segment.Flat : Segment → Prop
  | .text _ => True
  | .styled content _ => ']' ∉ content
  | .conditional inner => ∃ t, inner = textOf t

theorem flat_of_mem_textOf {t : Str} {seg : Segment} (h : seg ∈ textOf t) : seg.Flat := by
  by_cases ht : t = []
  · rw [ht] at h; cases h
  · rw [textOf_of_ne ht, List.mem_singleton] at h
    subst h
    exact True.intro

theorem Parses.flat {acc r : Str} {out : List Segment} (h : Parses acc r out) :
    ∀ seg ∈ out, seg.Flat := by
  have happend : ∀ {t : Str} {seg : Segment} {out : List Segment}, seg.Flat →
      (∀ seg ∈ out, seg.Flat) → ∀ seg' ∈ textOf t ++ seg :: out, seg'.Flat := by
    intro t seg out hseg hout seg' hmem
    rcases List.mem_append.1 hmem with hmem | hmem
    · exact flat_of_mem_textOf hmem
    rcases List.mem_cons.1 hmem with rfl | hmem
    · exact hseg
    · exact hout seg' hmem
  induction h with
  | rest hc => intro seg hmem; exact flat_of_mem_textOf hmem
  | styled hc _ ih =>
    cases hc with
    | styled _ _ hs => exact happend hs.1 ih
  | conditional hc hi _ _ ih =>
    cases hc with
    | conditional _ _ hno => exact happend ⟨_, hi.eq_textOf hno⟩ ih
  | literal _ _ ih => exact ih

/-- A part is followed by an end of the text. -/
theorem ChunkOf.suffix_of_after {r rest : Str} {chunk : Chunk} (h : ChunkOf r chunk)
    (ha : chunk.after = some rest) : rest <:+ r := by
  cases h with
  | rest => cases ha
  | @styled before content styleStr tail heq =>
    cases ha
    exact ⟨before ++ '[' :: (content ++ ']' :: '(' :: (styleStr ++ [')'])), by simp [heq, styledTail]⟩
  | @openBracket before tail heq =>
    cases ha
    exact ⟨before ++ ['['], by simp [heq]⟩
  | @conditional before inner tail heq =>
    cases ha
    exact ⟨before ++ '(' :: (inner ++ [')']), by simp [heq]⟩
  | @openParen before tail heq =>
    cases ha
    exact ⟨before ++ ['('], by simp [heq]⟩

/-- A text without `]` has no styles. -/
theorem not_styleOf_of_not_mem {r styleStr : Str} (hr : ']' ∉ r) : ¬ StyleOf r styleStr := by
  intro h
  induction h with
  | here hc hs =>
    cases hc with
    | styled heq => exact hr (by simp [heq, styledTail])
    | rest | openBracket | conditional | openParen => cases hs
  | later hc ha _ ih => exact ih fun hmem => hr ((hc.suffix_of_after ha).subset hmem)

/-! ## When a format is compiled -/

theorem compileAll_eq (segs : List Segment) : compileAll segs = segs.mapM compileSegment := by
  induction segs with
  | nil => rw [compileAll]; rfl
  | cons seg segs ih =>
    rw [compileAll, List.mapM_cons, ih]
    rfl

theorem returns_compileAll (segs : List Segment) :
    Returns (compileAll segs) ↔ ∀ seg ∈ segs, Returns (compileSegment seg) := by
  rw [compileAll_eq, returns_mapM]

theorem compileSegments_of_parses {format : Str} {segs : List Segment}
    (h : Parses [] format segs) : compileSegments format = compileAll segs := by
  rw [compileSegments]
  split
  · next p hp => rw [parseSegments_eq_ok.2 h] at hp; cases hp
  · next segs' hp => rw [parseSegments_eq_ok.2 h] at hp; cases hp; rfl

theorem returns_compile_text (t : Str) : Returns (compileSegment (.text t)) := by
  rw [compileSegment]
  exact returns_ok _

theorem returns_compile_conditional {inner : List Segment}
    (h : (Segment.conditional inner).Flat) : Returns (compileSegment (.conditional inner)) := by
  obtain ⟨t, rfl⟩ := h
  have hinner : Returns (compileAll (textOf t)) := by
    rw [returns_compileAll]
    intro seg hmem
    by_cases ht : t = []
    · rw [ht] at hmem; cases hmem
    · rw [textOf_of_ne ht, List.mem_singleton] at hmem
      rw [hmem]
      exact returns_compile_text t
  obtain ⟨compiled, hc⟩ := hinner
  rw [compileSegment, hc]
  exact returns_ok _

/-- The contents of a styled part are compiled. -/
theorem returns_compile_content {content : Str} (h : ']' ∉ content) :
    Returns (compileSegments content) := by
  obtain ⟨segs, hp⟩ := exists_parses [] content
  rw [compileSegments_of_parses hp, returns_compileAll]
  intro seg hmem
  cases seg with
  | text t => exact returns_compile_text t
  | styled content' styleStr =>
    exact absurd (hp.styleOf_iff.2 ⟨content', hmem⟩) (not_styleOf_of_not_mem h)
  | conditional inner => exact returns_compile_conditional (hp.flat _ hmem)

theorem returns_compile_styled {content styleStr : Str} (h : ']' ∉ content) :
    Returns (compileSegment (.styled content styleStr)) ↔ StyleSafe styleStr := by
  obtain ⟨compiled, hc⟩ := returns_compile_content h
  rw [compileSegment, hc, ok_bind, ← returns_parse, returns_bind]
  constructor
  · rintro ⟨style, hs, -⟩
    exact ⟨style, hs⟩
  · rintro ⟨style, hs⟩
    exact ⟨style, hs, returns_ok _⟩

/-- **A format is compiled exactly when its styles are safe.** -/
theorem returns_compileSegments (format : Str) :
    Returns (compileSegments format) ↔ FormatSafe format := by
  obtain ⟨segs, hp⟩ := exists_parses [] format
  rw [compileSegments_of_parses hp, returns_compileAll]
  constructor
  · intro h styleStr hs
    obtain ⟨content, hmem⟩ := hp.styleOf_iff.1 hs
    exact (returns_compile_styled (hp.flat _ hmem)).1 (h _ hmem)
  · intro h seg hmem
    cases seg with
    | text t => exact returns_compile_text t
    | styled content styleStr =>
      exact (returns_compile_styled (hp.flat _ hmem)).2 (h _ (hp.styleOf_iff.2 ⟨content, hmem⟩))
    | conditional inner => exact returns_compile_conditional (hp.flat _ hmem)

/-- The segments of a format are compiled one by one. -/
theorem returns_compileSegments_unparse {segs : List Segment} (hc : Canonical segs)
    (hp : ∀ seg ∈ segs, seg.Printable) :
    Returns (compileSegments (unparse segs)) ↔ ∀ seg ∈ segs, Returns (compileSegment seg) := by
  rw [compileSegments_of_parses (parseSegments_eq_ok.1 (parseSegments_of_printable hc hp)),
    returns_compileAll]

/-- No colours, and so none that is cut inside a character. -/
theorem styleSafe_boldGreen : StyleSafe "bold green".toList := by
  have hnone : colorValues (splitWhitespace "bold green".toList) = [] := by decide
  intro value hvalue
  rw [hnone] at hvalue
  cases hvalue

theorem returns_compileSegments_label : Returns (compileSegments (unparse labelSegments)) := by
  rw [returns_compileSegments_unparse canonical_labelSegments printable_labelSegments]
  intro seg hseg
  simp only [labelSegments, List.mem_cons, List.not_mem_nil, or_false] at hseg
  rcases hseg with rfl | rfl | rfl
  · exact (returns_compile_styled (by decide)).2 styleSafe_boldGreen
  · exact returns_compile_text _
  · exact returns_compile_conditional ⟨" $pr_ids".toList, rfl⟩

end MergeReady.Evaluation
