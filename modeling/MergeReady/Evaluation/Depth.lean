import MergeReady.Evaluation.Template

/-!
# How deep a compiled format is

Compiling a format calls itself through the parts of the format.  A part cannot contain the delimiter
that ends it, so no format is nested more than twice: `compileSegments` makes no chain of more than four
calls below it, and gives a tree of at most three levels.  Rendered, a style is closed before another
one opens.
-/

namespace MergeReady.Evaluation

open MergeReady.Lib MergeReady.Lib.Str

/-! ## Chains of calls -/

section

variable {α : Type*} (calls : α → α → Prop)

/-- Every chain of calls below `a` ends after at most so many of them. -/
def EndsWithin : ℕ → α → Prop
  | 0, a => ∀ b, ¬ calls a b
  | n + 1, a => ∀ b, calls a b → EndsWithin n b

variable {calls}

theorem EndsWithin.succ {n : ℕ} {a : α} (h : EndsWithin calls n a) : EndsWithin calls (n + 1) a := by
  induction n generalizing a with
  | zero => exact fun b hb => absurd hb (h b)
  | succ n ih => exact fun b hb => ih (h b hb)

theorem EndsWithin.mono {m n : ℕ} {a : α} (h : EndsWithin calls m a) (hmn : m ≤ n) :
    EndsWithin calls n a := by
  induction hmn with
  | refl => exact h
  | step _ ih => exact ih.succ

theorem EndsWithin.length_le {n : ℕ} {a : α} {chain : List α} (h : EndsWithin calls n a)
    (hc : List.IsChain calls (a :: chain)) : chain.length ≤ n := by
  induction chain generalizing n a with
  | nil => exact Nat.zero_le n
  | cons b chain ih =>
    rw [List.isChain_cons_cons] at hc
    cases n with
    | zero => exact absurd hc.1 (h b)
    | succ n => exact Nat.succ_le_succ (ih (h b hc.1) hc.2)

end

/-- A call of one of the functions that compile a format. -/
inductive Call
  | compileSegments (format : Str)
  | compileSegment (segment : Segment)
  | parseSegments (format : Str)

/-- `Reaches r r'` — reading `r` from its start, the loop comes to read `r'`. -/
inductive Reaches : Str → Str → Prop
  | refl (r : Str) : Reaches r r
  | step {r rest r' : Str} {chunk : Chunk} :
      ChunkOf r chunk → chunk.after = some rest → Reaches rest r' → Reaches r r'

/-- The calls that a call makes. -/
inductive Calls : Call → Call → Prop
  | parse (format : Str) : Calls (.compileSegments format) (.parseSegments format)
  | part {format : Str} {segs : List Segment} {seg : Segment} :
      parseSegments format = .ok segs → seg ∈ segs →
      Calls (.compileSegments format) (.compileSegment seg)
  | content (content styleStr : Str) :
      Calls (.compileSegment (.styled content styleStr)) (.compileSegments content)
  | inner {inner : List Segment} {seg : Segment} :
      seg ∈ inner → Calls (.compileSegment (.conditional inner)) (.compileSegment seg)
  /-- the loop of `parse_segments` comes to a conditional part -/
  | nested {format r before inner rest : Str} :
      Reaches format r → ChunkOf r (.conditional before inner rest) →
      Calls (.parseSegments format) (.parseSegments inner)

theorem Reaches.suffix {r r' : Str} (h : Reaches r r') : r' <:+ r := by
  induction h with
  | refl r => exact List.suffix_refl r
  | step hc ha _ ih => exact ih.trans (hc.suffix_of_after ha)

/-- Without a `)` the parser does not call itself. -/
theorem endsWithin_parse_of_not_mem {format : Str} (h : ')' ∉ format) :
    EndsWithin Calls 0 (.parseSegments format) := by
  rintro _ (_ | _ | _ | _ | ⟨hr, hc⟩)
  apply h
  apply hr.suffix.subset
  cases hc with
  | conditional heq => simp [heq]

theorem endsWithin_parse (format : Str) : EndsWithin Calls 1 (.parseSegments format) := by
  rintro _ (_ | _ | _ | _ | ⟨-, hc⟩)
  cases hc with
  | conditional _ _ hno => exact endsWithin_parse_of_not_mem hno

theorem endsWithin_text (t : Str) : EndsWithin Calls 0 (.compileSegment (.text t)) := by
  rintro _ (_ | _)

theorem endsWithin_conditional {inner : List Segment} (h : (Segment.conditional inner).Flat) :
    EndsWithin Calls 1 (.compileSegment (.conditional inner)) := by
  rintro _ (_ | _ | _ | hmem | _)
  obtain ⟨t, rfl⟩ := h
  by_cases ht : t = []
  · rw [ht] at hmem
    cases hmem
  · rw [textOf_of_ne ht, List.mem_singleton] at hmem
    rw [hmem]
    exact endsWithin_text t

/-- Without a `]` there is no styled part, and compiling does not call itself. -/
theorem endsWithin_content {content : Str} (h : ']' ∉ content) :
    EndsWithin Calls 2 (.compileSegments content) := by
  rintro _ (_ | @⟨_, segs, seg, hp, hmem⟩ | _ | _ | _)
  · exact endsWithin_parse content
  · have hp := parseSegments_eq_ok.1 hp
    cases seg with
    | text t => exact (endsWithin_text t).succ
    | styled content' styleStr =>
      exact absurd (hp.styleOf_iff.2 ⟨content', hmem⟩) (not_styleOf_of_not_mem h)
    | conditional inner => exact endsWithin_conditional (hp.flat _ hmem)

theorem endsWithin_segment {seg : Segment} (h : seg.Flat) :
    EndsWithin Calls 3 (.compileSegment seg) := by
  cases seg with
  | text t => exact (endsWithin_text t).mono (by decide)
  | styled content styleStr =>
    rintro _ (_ | _ | _ | _ | _)
    exact endsWithin_content h
  | conditional inner => exact (endsWithin_conditional h).mono (by decide)

/-- **Compiling a format makes at most four calls inside each other.** -/
theorem endsWithin_compileSegments (format : Str) :
    EndsWithin Calls 4 (.compileSegments format) := by
  rintro _ (_ | ⟨hp, hmem⟩ | _ | _ | _)
  · exact (endsWithin_parse format).mono (by decide)
  · exact endsWithin_segment ((parseSegments_eq_ok.1 hp).flat _ hmem)

/-! ## The shape of a compiled format -/

/-- A text, or a conditional part that is empty or has one text in it. -/
def CompiledSegment.Unstyled : CompiledSegment → Prop
  | .text _ => True
  | .styled _ _ => False
  | .conditional inner => inner = [] ∨ ∃ t, inner = [.text t]

/-- An unstyled part, or a styled one with unstyled parts in it. -/
def CompiledSegment.Shallow : CompiledSegment → Prop
  | .text _ => True
  | .styled content _ => ∀ seg ∈ content, seg.Unstyled
  | .conditional inner => inner = [] ∨ ∃ t, inner = [.text t]

theorem CompiledSegment.Unstyled.shallow {seg : CompiledSegment} (h : seg.Unstyled) :
    seg.Shallow := by
  cases seg with
  | text => exact h
  | styled => exact absurd h id
  | conditional => exact h

/-- A compiled part comes from a part. -/
theorem exists_mem_of_compileAll {segs : List Segment} {compiled : List CompiledSegment}
    (h : compileAll segs = .ok compiled) {c : CompiledSegment} (hc : c ∈ compiled) :
    ∃ seg ∈ segs, compileSegment seg = .ok c := by
  induction compiled generalizing segs with
  | nil => cases hc
  | cons d compiled ih =>
    obtain ⟨seg, rest, rfl, hd, hrest⟩ := compileAll_eq_ok_cons h
    rcases List.mem_cons.1 hc with rfl | hc
    · exact ⟨seg, List.mem_cons_self, hd⟩
    · obtain ⟨seg', hmem, hseg'⟩ := ih hrest hc
      exact ⟨seg', List.mem_cons_of_mem _ hmem, hseg'⟩

theorem compileAll_textOf {t : Str} {compiled : List CompiledSegment}
    (h : compileAll (textOf t) = .ok compiled) : compiled = [] ∨ ∃ u, compiled = [.text u] := by
  by_cases ht : t = []
  · rw [ht, textOf_nil, compileAll] at h
    cases h
    exact .inl rfl
  · rw [textOf_of_ne ht, compileAll, compileSegment, compileAll] at h
    cases h
    exact .inr ⟨t, rfl⟩

theorem unstyled_of_conditional {inner : List Segment} (h : (Segment.conditional inner).Flat)
    {c : CompiledSegment} (hc : compileSegment (.conditional inner) = .ok c) : c.Unstyled := by
  obtain ⟨t, rfl⟩ := h
  rw [compileSegment, bind_eq_ok] at hc
  obtain ⟨compiled, hcompiled, hc⟩ := hc
  cases hc
  exact compileAll_textOf hcompiled

/-- What is compiled without a `]` has no styled parts. -/
theorem unstyled_of_content {content : Str} (h : ']' ∉ content) {compiled : List CompiledSegment}
    (hc : compileSegments content = .ok compiled) : ∀ seg ∈ compiled, seg.Unstyled := by
  intro c hmem
  obtain ⟨segs, hp, hcompile⟩ := compileSegments_eq_ok.1 hc
  have hp := parseSegments_eq_ok.1 hp
  obtain ⟨seg, hseg, hc⟩ := exists_mem_of_compileAll hcompile hmem
  cases seg with
  | text t =>
    rw [compileSegment] at hc
    cases hc
    exact True.intro
  | styled content' styleStr =>
    exact absurd (hp.styleOf_iff.2 ⟨content', hseg⟩) (not_styleOf_of_not_mem h)
  | conditional inner => exact unstyled_of_conditional (hp.flat _ hseg) hc

/-- **The parts of a compiled format are shallow.** -/
theorem shallow_of_compileSegments {format : Str} {tree : List CompiledSegment}
    (h : compileSegments format = .ok tree) : ∀ seg ∈ tree, seg.Shallow := by
  intro c hmem
  obtain ⟨segs, hp, hcompile⟩ := compileSegments_eq_ok.1 h
  have hflat := (parseSegments_eq_ok.1 hp).flat
  obtain ⟨seg, hseg, hc⟩ := exists_mem_of_compileAll hcompile hmem
  cases seg with
  | text t =>
    rw [compileSegment] at hc
    cases hc
    exact True.intro
  | styled content styleStr =>
    rw [compileSegment, bind_eq_ok] at hc
    obtain ⟨compiled, hcompiled, hc⟩ := hc
    obtain ⟨style, -, hc⟩ := bind_eq_ok.1 hc
    cases hc
    exact unstyled_of_content (hflat _ hseg) hcompiled
  | conditional inner => exact (unstyled_of_conditional (hflat _ hseg) hc).shallow

/-! ## What occurs in a tree, and how deep -/

/-- The segment is somewhere in the tree. -/
inductive Occurs (seg : CompiledSegment) : List CompiledSegment → Prop
  | here {tree : List CompiledSegment} : seg ∈ tree → Occurs seg tree
  | styled {tree content : List CompiledSegment} {style : StyleSpec} :
      .styled content style ∈ tree → Occurs seg content → Occurs seg tree
  | conditional {tree inner : List CompiledSegment} :
      .conditional inner ∈ tree → Occurs seg inner → Occurs seg tree

mutual

def CompiledSegment.depth : CompiledSegment → ℕ
  | .text _ => 1
  | .styled content _ => depthAll content + 1
  | .conditional inner => depthAll inner + 1

/-- The number of levels of a tree. -/
def depthAll : List CompiledSegment → ℕ
  | [] => 0
  | seg :: segs => max seg.depth (depthAll segs)

end

theorem depthAll_le_iff {tree : List CompiledSegment} {n : ℕ} :
    depthAll tree ≤ n ↔ ∀ seg ∈ tree, seg.depth ≤ n := by
  induction tree with
  | nil => simp [depthAll]
  | cons seg tree ih => rw [depthAll, Nat.max_le, ih, List.forall_mem_cons]

/-- Nothing but a text can be in a conditional part. -/
theorem occurs_of_inner {inner : List CompiledSegment} (h : inner = [] ∨ ∃ t, inner = [.text t])
    {seg : CompiledSegment} (hs : Occurs seg inner) : ∃ t, seg = .text t := by
  have hmem : ∀ c ∈ inner, ∃ t, c = .text t := by
    intro c hc
    rcases h with rfl | ⟨t, rfl⟩
    · cases hc
    · exact ⟨t, List.mem_singleton.1 hc⟩
  cases hs with
  | here hs => exact hmem seg hs
  | styled hs => cases (hmem _ hs).choose_spec
  | conditional hs => cases (hmem _ hs).choose_spec

theorem unstyled_of_occurs {tree : List CompiledSegment} (h : ∀ seg ∈ tree, seg.Unstyled)
    {seg : CompiledSegment} (hs : Occurs seg tree) : seg.Unstyled := by
  cases hs with
  | here hs => exact h seg hs
  | styled hs => exact absurd (h _ hs) id
  | conditional hs hin =>
    obtain ⟨t, rfl⟩ := occurs_of_inner (h _ hs) hin
    exact True.intro

theorem shallow_of_occurs {tree : List CompiledSegment} (h : ∀ seg ∈ tree, seg.Shallow)
    {seg : CompiledSegment} (hs : Occurs seg tree) : seg.Shallow := by
  cases hs with
  | here hs => exact h seg hs
  | styled hs hin => exact (unstyled_of_occurs (h _ hs) hin).shallow
  | conditional hs hin =>
    obtain ⟨t, rfl⟩ := occurs_of_inner (h _ hs) hin
    exact True.intro

theorem CompiledSegment.Unstyled.depth_le {seg : CompiledSegment} (h : seg.Unstyled) :
    seg.depth ≤ 2 := by
  cases seg with
  | text => exact Nat.le_succ 1
  | styled => exact absurd h id
  | conditional inner =>
    rcases h with rfl | ⟨t, rfl⟩
    · exact Nat.le_succ 1
    · exact Nat.le_refl 2

theorem CompiledSegment.Shallow.depth_le {seg : CompiledSegment} (h : seg.Shallow) :
    seg.depth ≤ 3 := by
  cases seg with
  | text => exact Nat.le_add_left 1 2
  | styled content =>
    exact Nat.succ_le_succ (depthAll_le_iff.2 fun seg hmem => (h seg hmem).depth_le)
  | conditional inner => exact Nat.le_succ_of_le (Unstyled.depth_le h)

/-! ## The styles that are open -/

/-- How the terminal package paints: nothing around the content for the plain style, and for every
other style its code before the content and the reset code after it. -/
structure PaintsWith (code : AnsiStyle → Str) (paint : AnsiStyle → Str → Str) : Prop where
  plain : ∀ content, paint AnsiStyle.new content = content
  styled : ∀ style, style ≠ AnsiStyle.new → ∀ content,
    paint style content = code style ++ content ++ "\x1b[0m".toList

/-- What is put out one after the other: texts, and the codes around them. -/
inductive Mark
  | text (t : Str)
  | code (style : AnsiStyle)
  | reset

def Mark.chars (code : AnsiStyle → Str) : Mark → Str
  | .text t => t
  | .code style => code style
  | .reset => "\x1b[0m".toList

instance (vars : Vars) (name : Str) : Decidable (Supplied vars.get name) :=
  match h : vars.get name with
  | none => .isFalse fun ⟨v, hv, _⟩ => by rw [h] at hv; cases hv
  | some [] => .isFalse fun ⟨v, hv, hne⟩ => by rw [h] at hv; cases hv; exact hne rfl
  | some (c :: v) => .isTrue ⟨c :: v, h, List.cons_ne_nil c v⟩

section

variable (vars : Vars)

mutual

/-- The marks of a rendered tree. -/
def marks : List CompiledSegment → List Mark
  | [] => []
  | seg :: segs => segmentMarks seg ++ marks segs

def segmentMarks : CompiledSegment → List Mark
  | .text t => [.text (substituteVars vars t)]
  | .styled content style =>
    if style.toAnsiStyle = AnsiStyle.new then marks content
    else .code style.toAnsiStyle :: (marks content ++ [.reset])
  | .conditional inner =>
    if ∃ name ∈ collectVarRefs inner, Supplied vars.get name then marks inner else []

end

end

/-- The styles open after the marks, the last one opened in front.  A reset code ends all styles at
once: there is no answer when more or fewer than one are open there. -/
def openAfter : List AnsiStyle → List Mark → Option (List AnsiStyle)
  | styles, [] => some styles
  | styles, .text _ :: ms => openAfter styles ms
  | styles, .code style :: ms => openAfter (style :: styles) ms
  | [_], .reset :: ms => openAfter [] ms
  | _, .reset :: _ => none

/-- One style inside another is not closed alone. -/
example (style style' : AnsiStyle) : openAfter [] [.code style, .code style', .reset] = none := rfl

theorem openAfter_append (styles : List AnsiStyle) (ms ms' : List Mark) :
    openAfter styles (ms ++ ms') = (openAfter styles ms).bind fun s => openAfter s ms' := by
  fun_induction openAfter styles ms with
  | case1 styles => rfl
  | case2 styles t ms ih => exact ih
  | case3 styles style ms ih => exact ih
  | case4 style ms ih => exact ih
  | case5 styles ms h =>
    rw [List.cons_append, openAfter]
    · rfl
    · exact h

section

variable {code : AnsiStyle → Str} {paint : AnsiStyle → Str → Str} {vars : Vars}

mutual

/-- **A tree is rendered to its marks.** -/
theorem chars_marks (hp : PaintsWith code paint) : ∀ tree : List CompiledSegment,
    (marks vars tree).flatMap (Mark.chars code) = evalSegments paint vars tree
  | [] => by
    rw [marks, evalSegments]
    rfl
  | seg :: segs => by
    rw [marks, evalSegments, List.flatMap_append, chars_segmentMarks hp seg, chars_marks hp segs]

theorem chars_segmentMarks (hp : PaintsWith code paint) : ∀ seg : CompiledSegment,
    (segmentMarks vars seg).flatMap (Mark.chars code) = evalSegment paint vars seg
  | .text t => by
    rw [segmentMarks, evalSegment, List.flatMap_singleton]
    rfl
  | .styled content style => by
    rw [segmentMarks, evalSegment]
    split
    · next h => rw [h, hp.plain, chars_marks hp content]
    · next h =>
      rw [hp.styled _ h, List.flatMap_cons, List.flatMap_append, chars_marks hp content,
        List.append_assoc, List.flatMap_singleton]
      rfl
  | .conditional inner => by
    rw [segmentMarks, evalSegment]
    split
    · next h => rw [evalConditional_of_supplied h, chars_marks hp inner]
    · next h =>
      rw [evalConditional_of_not_supplied h]
      rfl

end

/-- Unstyled parts open and close nothing. -/
theorem openAfter_unstyled {tree : List CompiledSegment} (h : ∀ seg ∈ tree, seg.Unstyled)
    (styles : List AnsiStyle) : openAfter styles (marks vars tree) = some styles := by
  induction tree with
  | nil =>
    rw [marks]
    rfl
  | cons seg tree ih =>
    rw [List.forall_mem_cons] at h
    have hseg : openAfter styles (segmentMarks vars seg) = some styles := by
      cases seg with
      | text t =>
        rw [segmentMarks]
        rfl
      | styled => exact absurd h.1 id
      | conditional inner =>
        rw [segmentMarks]
        split
        · rcases h.1 with rfl | ⟨t, rfl⟩
          · rw [marks]
            rfl
          · rw [marks, marks, segmentMarks]
            rfl
        · rfl
    rw [marks, openAfter_append, hseg]
    exact ih h.2

/-- **Shallow parts are painted one after the other**, each style closed before the next one opens. -/
theorem openAfter_shallow {tree : List CompiledSegment} (h : ∀ seg ∈ tree, seg.Shallow) :
    openAfter [] (marks vars tree) = some [] := by
  induction tree with
  | nil =>
    rw [marks]
    rfl
  | cons seg tree ih =>
    rw [List.forall_mem_cons] at h
    have hseg : openAfter [] (segmentMarks vars seg) = some [] := by
      cases seg with
      | text t =>
        rw [segmentMarks]
        rfl
      | styled content style =>
        rw [segmentMarks]
        split
        · exact openAfter_unstyled h.1 []
        · rw [openAfter, openAfter_append, openAfter_unstyled h.1]
          rfl
      | conditional inner =>
        have hinner : ∀ seg ∈ [CompiledSegment.conditional inner], seg.Unstyled :=
          List.forall_mem_singleton.2 h.1
        have hmarks : openAfter [] (marks vars [.conditional inner]) = some [] :=
          openAfter_unstyled hinner []
        rwa [marks, marks, List.append_nil] at hmarks
    rw [marks, openAfter_append, hseg]
    exact ih h.2

end

/-- **Every format is compiled to a tree of at most three levels**, by calls nested at most four
deep: only texts are in its conditional parts, nothing styled is in its styled parts, and each reset
code of the rendered tree ends the only style that is open there. -/
theorem compileSegments_shallow (format : Str) :
    (∀ chain, List.IsChain Calls (.compileSegments format :: chain) → chain.length ≤ 4) ∧
    (Returns (compileSegments format) ↔ FormatSafe format) ∧
    ∀ tree, compileSegments format = .ok tree →
      (∀ inner, Occurs (.conditional inner) tree → inner = [] ∨ ∃ t, inner = [.text t]) ∧
      (∀ content style, Occurs (.styled content style) tree →
        (∀ seg ∈ content, (∃ t, seg = .text t) ∨ ∃ inner, seg = .conditional inner) ∧
        ∀ content' style', ¬ Occurs (.styled content' style') content) ∧
      depthAll tree ≤ 3 ∧
      ∀ vars, openAfter [] (marks vars tree) = some [] ∧
        ∀ code paint, PaintsWith code paint →
          evalSegments paint vars tree = (marks vars tree).flatMap (Mark.chars code) := by
  refine ⟨fun chain hc => (endsWithin_compileSegments format).length_le hc,
    returns_compileSegments format, fun tree htree => ?_⟩
  have hshallow := shallow_of_compileSegments htree
  refine ⟨fun inner hin => shallow_of_occurs hshallow hin, fun content style hin => ?_,
    depthAll_le_iff.2 fun seg hmem => (hshallow seg hmem).depth_le,
    fun vars => ⟨openAfter_shallow hshallow, fun code paint hp => (chars_marks hp tree).symm⟩⟩
  have hcontent : ∀ seg ∈ content, seg.Unstyled := shallow_of_occurs hshallow hin
  constructor
  · intro seg hmem
    cases seg with
    | text t => exact .inl ⟨t, rfl⟩
    | styled => exact absurd (hcontent _ hmem) id
    | conditional inner => exact .inr ⟨inner, rfl⟩
  · intro content' style' hin'
    exact unstyled_of_occurs hcontent hin'

/-- Every style but the plain one as bold green. -/
def codeBoldGreen (_ : AnsiStyle) : Str := "\x1b[1;32m".toList

def paintBoldGreen (style : AnsiStyle) (content : Str) : Str :=
  if style = AnsiStyle.new then content else codeBoldGreen style ++ content ++ "\x1b[0m".toList

theorem paintsWith_boldGreen : PaintsWith codeBoldGreen paintBoldGreen where
  plain _ := if_pos rfl
  styled _ hs _ := if_neg hs

/-- The symbol in its style is closed before the numbers. -/
theorem compileSegments_shallow_label :
    ∃ tree, compileSegments (unparse labelSegments) = .ok tree ∧ depthAll tree ≤ 3 ∧
      let vars := tokenVars "✓".toList "Ready".toList (some "#12 #7".toList)
      openAfter [] (marks vars tree) = some [] ∧
        evalSegments paintBoldGreen vars tree =
          (marks vars tree).flatMap (Mark.chars codeBoldGreen) := by
  obtain ⟨tree, htree⟩ := returns_compileSegments_label
  obtain ⟨-, -, hshallow⟩ := compileSegments_shallow (unparse labelSegments)
  obtain ⟨-, -, hdepth, hmarks⟩ := hshallow tree htree
  refine ⟨tree, htree, hdepth, ?_⟩
  obtain ⟨hopen, hpaint⟩ := hmarks (tokenVars "✓".toList "Ready".toList (some "#12 #7".toList))
  exact ⟨hopen, hpaint _ _ paintsWith_boldGreen⟩

end MergeReady.Evaluation
