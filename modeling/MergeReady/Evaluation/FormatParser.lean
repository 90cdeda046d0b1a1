import MergeReady.Lib.Str

/-!
# The format parser

`parseSegments` splits a format string into texts, styled parts `[content](style)` and conditional
parts `(inner)`.  `Parses` is the grammar it reads, a derivation for each string, and
`parseSegments_eq_ok` says that the two agree.
-/

namespace MergeReady.Evaluation

open MergeReady.Lib MergeReady.Lib.Str

inductive Segment
  | text (t : Str)
  | styled (content styleStr : Str)
  | conditional (inner : List Segment)

/-! ## The scanner -/

/-- What one turn of the loop of `parse_segments` takes off the remaining text. -/
inductive Chunk
  /-- there is no delimiter -/
  | rest (text : Str)
  /-- `[content](style)` after a text -/
  | styled (before content styleStr rest : Str)
  /-- `(inner)` after a text -/
  | conditional (before inner rest : Str)
  /-- a text up to a delimiter that opens nothing -/
  | literal (text rest : Str)

/-- The attempt to read `content](style)` after a `[`. -/
def styledAt (afterOpen : Str) : Fallible (Option (Str × Str × Str)) :=
  match find ']' afterOpen with
  | none => .ok none
  | some closeBracket => do
    let afterBracket ← sliceFrom afterOpen (closeBracket + 1)
    match stripPrefix ['('] afterBracket with
    | none => .ok none
    | some afterParen =>
      match find ')' afterParen with
      | none => .ok none
      | some parenClose => do
        let content ← sliceTo afterOpen closeBracket
        let styleStr ← sliceTo afterParen parenClose
        let rest ← sliceFrom afterParen (parenClose + 1)
        .ok (some (content, styleStr, rest))

/-- The branch of the loop where `[` comes first. -/
def bracketChunk (remaining : Str) (b : ℕ) : Fallible Chunk := do
  let afterOpen ← sliceFrom remaining (b + 1)
  match ← styledAt afterOpen with
  | some (content, styleStr, rest) =>
    let before ← sliceTo remaining b
    .ok (.styled before content styleStr rest)
  | none =>
    let text ← sliceTo remaining (b + 1)
    let rest ← sliceFrom remaining (b + 1)
    .ok (.literal text rest)

/-- The branch of the loop where `(` comes first. -/
def parenChunk (remaining : Str) (p : ℕ) : Fallible Chunk := do
  let afterParen ← sliceFrom remaining (p + 1)
  match find ')' afterParen with
  | some close =>
    let before ← sliceTo remaining p
    let inner ← sliceTo afterParen close
    let rest ← sliceFrom afterParen (close + 1)
    .ok (.conditional before inner rest)
  | none =>
    let text ← sliceTo remaining (p + 1)
    let rest ← sliceFrom remaining (p + 1)
    .ok (.literal text rest)

/-- The body of the loop: the delimiter that comes first decides. -/
def nextChunk (remaining : Str) : Fallible Chunk :=
  match find '[' remaining, find '(' remaining with
  | none, none => .ok (.rest remaining)
  | some b, none => bracketChunk remaining b
  | none, some p => parenChunk remaining p
  | some b, some p => if b ≤ p then bracketChunk remaining b else parenChunk remaining p

/-! ## What a chunk is -/

/-- No delimiter opens here. -/
def Plain (s : Str) : Prop := '[' ∉ s ∧ '(' ∉ s

theorem Plain.nil : Plain [] := ⟨List.not_mem_nil, List.not_mem_nil⟩

/-- `StyledText content style` — `[content](style)` is a styled part as a whole. -/
def StyledText (content styleStr : Str) : Prop := ']' ∉ content ∧ ')' ∉ styleStr

/-- `content](style)` and what comes after it. -/
def styledTail (content styleStr rest : Str) : Str :=
  content ++ ']' :: '(' :: (styleStr ++ ')' :: rest)

/-- The grammar of the chunks. -/
inductive ChunkOf : Str → Chunk → Prop
  | rest {r : Str} : Plain r → ChunkOf r (.rest r)
  | styled {r before content styleStr rest : Str} :
      r = before ++ '[' :: styledTail content styleStr rest →
      Plain before → StyledText content styleStr →
      ChunkOf r (.styled before content styleStr rest)
  | openBracket {r before rest : Str} :
      r = before ++ '[' :: rest → Plain before →
      (∀ content styleStr rest', StyledText content styleStr →
        rest ≠ styledTail content styleStr rest') →
      ChunkOf r (.literal (before ++ ['[']) rest)
  | conditional {r before inner rest : Str} :
      r = before ++ '(' :: (inner ++ ')' :: rest) → Plain before → ')' ∉ inner →
      ChunkOf r (.conditional before inner rest)
  | openParen {r before rest : Str} :
      r = before ++ '(' :: rest → Plain before → ')' ∉ rest →
      ChunkOf r (.literal (before ++ ['(']) rest)

theorem sliceFrom_append {l r : Str} {c : Char} (hc : c.utf8Size = 1) :
    sliceFrom (l ++ c :: r) (byteLen l + 1) = .ok r := by
  refine sliceFrom_eq_ok.2 ⟨l ++ [c], by simp, ?_⟩
  simp [hc]

theorem sliceTo_append {l r : Str} : sliceTo (l ++ r) (byteLen l) = .ok l :=
  sliceTo_eq_ok.2 ⟨r, rfl, rfl⟩

theorem sliceTo_append_succ {l r : Str} {c : Char} (hc : c.utf8Size = 1) :
    sliceTo (l ++ c :: r) (byteLen l + 1) = .ok (l ++ [c]) := by
  refine sliceTo_eq_ok.2 ⟨r, by simp, ?_⟩
  simp [hc]

theorem styledAt_styledTail {content styleStr rest : Str} (h : StyledText content styleStr) :
    styledAt (styledTail content styleStr rest) = .ok (some (content, styleStr, rest)) := by
  have hparen : stripPrefix ['('] ('(' :: (styleStr ++ ')' :: rest)) = some (styleStr ++ ')' :: rest) :=
    stripPrefix_eq_some.2 rfl
  unfold styledAt styledTail
  simp only [find_append_cons h.1, sliceFrom_append (show (']' : Char).utf8Size = 1 by decide), ok_bind,
    hparen, find_append_cons h.2, sliceTo_append,
    sliceFrom_append (show (')' : Char).utf8Size = 1 by decide)]

/-- The attempt fails exactly on the texts that are not of that form. -/
theorem styledAt_eq_none {s : Str}
    (h : ∀ content styleStr rest, StyledText content styleStr →
      s ≠ styledTail content styleStr rest) : styledAt s = .ok none := by
  unfold styledAt
  by_cases hs : ']' ∈ s
  · obtain ⟨content, t, rfl, hc⟩ := List.eq_append_cons_of_mem hs
    rw [find_append_cons hc]
    simp only [sliceFrom_append (show (']' : Char).utf8Size = 1 by decide)]
    cases ht : stripPrefix ['('] t with
    | none => simp only [ok_bind, ht]
    | some afterParen =>
      obtain rfl := stripPrefix_eq_some.1 ht
      have hno : ')' ∉ afterParen := by
        intro hp
        obtain ⟨styleStr, rest, rfl, hst⟩ := List.eq_append_cons_of_mem hp
        exact h content styleStr rest ⟨hc, hst⟩ rfl
      simp only [ok_bind, ht, find_eq_none.2 hno]
  · rw [find_eq_none.2 hs]

theorem bracketChunk_styled {before content styleStr rest : Str} (h : StyledText content styleStr) :
    bracketChunk (before ++ '[' :: styledTail content styleStr rest) (byteLen before) =
      .ok (.styled before content styleStr rest) := by
  unfold bracketChunk
  simp only [sliceFrom_append (show ('[' : Char).utf8Size = 1 by decide), ok_bind,
    styledAt_styledTail h, sliceTo_append]

theorem bracketChunk_literal {before rest : Str}
    (h : ∀ content styleStr rest', StyledText content styleStr →
      rest ≠ styledTail content styleStr rest') :
    bracketChunk (before ++ '[' :: rest) (byteLen before) =
      .ok (.literal (before ++ ['[']) rest) := by
  unfold bracketChunk
  simp only [sliceFrom_append (show ('[' : Char).utf8Size = 1 by decide), ok_bind,
    styledAt_eq_none h, sliceTo_append_succ (show ('[' : Char).utf8Size = 1 by decide)]

theorem parenChunk_conditional {before inner rest : Str} (h : ')' ∉ inner) :
    parenChunk (before ++ '(' :: (inner ++ ')' :: rest)) (byteLen before) =
      .ok (.conditional before inner rest) := by
  unfold parenChunk
  simp only [sliceFrom_append (show ('(' : Char).utf8Size = 1 by decide), ok_bind, find_append_cons h,
    sliceTo_append, sliceFrom_append (show (')' : Char).utf8Size = 1 by decide)]

theorem parenChunk_literal {before rest : Str} (h : ')' ∉ rest) :
    parenChunk (before ++ '(' :: rest) (byteLen before) =
      .ok (.literal (before ++ ['(']) rest) := by
  unfold parenChunk
  simp only [sliceFrom_append (show ('(' : Char).utf8Size = 1 by decide), ok_bind,
    find_eq_none.2 h, sliceTo_append_succ (show ('(' : Char).utf8Size = 1 by decide)]

theorem nextChunk_bracket {before rest : Str} (h : Plain before) :
    nextChunk (before ++ '[' :: rest) =
      bracketChunk (before ++ '[' :: rest) (byteLen before) := by
  unfold nextChunk
  rw [find_append_cons h.1]
  split
  · next hb _ => cases hb
  · next hb _ => cases hb; rfl
  · next hb _ => cases hb
  · next b p hb hp =>
    cases hb
    exact if_pos (byteLen_le_of_find h.2 hp)

theorem nextChunk_paren {before rest : Str} (h : Plain before) :
    nextChunk (before ++ '(' :: rest) =
      parenChunk (before ++ '(' :: rest) (byteLen before) := by
  unfold nextChunk
  rw [find_append_cons h.2]
  split
  · next hp => cases hp
  · next hp => cases hp
  · next hp => cases hp; rfl
  · next b p hb hp =>
    cases hp
    have hno : '[' ∉ before ++ ['('] := by simp [h.1]
    have hlt : byteLen (before ++ ['(']) ≤ b :=
      byteLen_le_of_find hno (by rw [List.append_assoc]; exact hb)
    have hone : byteLen (before ++ ['(']) = byteLen before + 1 := by simp; decide
    exact if_neg (by omega)

/-- **The loop's body reads a chunk of the grammar.** -/
theorem nextChunk_of {r : Str} {chunk : Chunk} (h : ChunkOf r chunk) : nextChunk r = .ok chunk := by
  cases h with
  | rest hr =>
    unfold nextChunk
    rw [find_eq_none.2 hr.1, find_eq_none.2 hr.2]
  | styled hr hb hs => rw [hr, nextChunk_bracket hb, bracketChunk_styled hs]
  | openBracket hr hb hs => rw [hr, nextChunk_bracket hb, bracketChunk_literal hs]
  | conditional hr hb hi => rw [hr, nextChunk_paren hb, parenChunk_conditional hi]
  | openParen hr hb hi => rw [hr, nextChunk_paren hb, parenChunk_literal hi]

/-- The first delimiter of a text. -/
theorem plain_or_split (r : Str) :
    Plain r ∨ ∃ before rest, Plain before ∧
      (r = before ++ '[' :: rest ∨ r = before ++ '(' :: rest) := by
  induction r with
  | nil => exact .inl Plain.nil
  | cons c r ih =>
    by_cases hb : c = '['
    · exact .inr ⟨[], r, Plain.nil, .inl (by simp [hb])⟩
    by_cases hp : c = '('
    · exact .inr ⟨[], r, Plain.nil, .inr (by simp [hp])⟩
    have hcons : ∀ {s : Str}, Plain s → Plain (c :: s) := by
      intro s hs
      exact ⟨by simp [Ne.symm hb, hs.1], by simp [Ne.symm hp, hs.2]⟩
    rcases ih with h | ⟨before, rest, h, hr | hr⟩
    · exact .inl (hcons h)
    · exact .inr ⟨c :: before, rest, hcons h, .inl (by rw [hr]; rfl)⟩
    · exact .inr ⟨c :: before, rest, hcons h, .inr (by rw [hr]; rfl)⟩

theorem exists_chunkOf (r : Str) : ∃ chunk, ChunkOf r chunk := by
  rcases plain_or_split r with h | ⟨before, rest, h, rfl | rfl⟩
  · exact ⟨_, .rest h⟩
  · by_cases hs : ∃ content styleStr rest', StyledText content styleStr ∧
        rest = styledTail content styleStr rest'
    · obtain ⟨content, styleStr, rest', hs, rfl⟩ := hs
      exact ⟨_, .styled rfl h hs⟩
    · exact ⟨_, .openBracket rfl h fun content styleStr rest' hst heq =>
        hs ⟨content, styleStr, rest', hst, heq⟩⟩
  · by_cases hp : ')' ∈ rest
    · obtain ⟨inner, rest', rfl, hi⟩ := List.eq_append_cons_of_mem hp
      exact ⟨_, .conditional rfl h hi⟩
    · exact ⟨_, .openParen rfl h hp⟩

theorem nextChunk_eq_ok {r : Str} {chunk : Chunk} : nextChunk r = .ok chunk ↔ ChunkOf r chunk := by
  constructor
  · intro h
    obtain ⟨chunk', h'⟩ := exists_chunkOf r
    rw [nextChunk_of h'] at h
    cases h
    exact h'
  · exact nextChunk_of

theorem nextChunk_ne_error (r : Str) (p : Panic) : nextChunk r ≠ .error p := by
  obtain ⟨chunk, h⟩ := exists_chunkOf r
  rw [nextChunk_of h]
  nofun

theorem ChunkOf.unique {r : Str} {chunk chunk' : Chunk} (h : ChunkOf r chunk)
    (h' : ChunkOf r chunk') : chunk = chunk' := by
  have heq := (nextChunk_of h).symm.trans (nextChunk_of h')
  cases heq
  rfl

/-- The texts that a chunk of a text of length `n` leaves to read are shorter. -/
def Chunk.Shorter (n : ℕ) : Chunk → Prop
  | .rest _ => True
  | .styled _ _ _ tail => tail.length < n
  | .conditional _ inner tail => inner.length < n ∧ tail.length < n
  | .literal _ tail => tail.length < n

theorem ChunkOf.shorter {r : Str} {chunk : Chunk} (h : ChunkOf r chunk) :
    chunk.Shorter r.length := by
  cases h with
  | rest hr => exact True.intro
  | styled hr hb hs =>
    rw [hr]
    simp only [Chunk.Shorter, styledTail, List.length_append, List.length_cons]
    omega
  | openBracket hr hb hs =>
    rw [hr]
    simp only [Chunk.Shorter, List.length_append, List.length_cons]
    omega
  | conditional hr hb hi =>
    rw [hr]
    simp only [Chunk.Shorter, List.length_append, List.length_cons]
    omega
  | openParen hr hb hi =>
    rw [hr]
    simp only [Chunk.Shorter, List.length_append, List.length_cons]
    omega

theorem shorter_of_nextChunk {r : Str} {chunk : Chunk} (h : nextChunk r = .ok chunk) :
    chunk.Shorter r.length :=
  (nextChunk_eq_ok.1 h).shorter

/-! ## The parser -/

def flushTextAcc (textAcc : Str) (segments : List Segment) : List Segment :=
  if textAcc = [] then segments else segments ++ [.text textAcc]

/-- The loop of `parse_segments`. -/
def parseLoop (segments : List Segment) (remaining textAcc : Str) : Fallible (List Segment) :=
  if _ : remaining = [] then .ok (flushTextAcc textAcc segments)
  else
    match hc : nextChunk remaining with
    | .error p => .error p
    | .ok (.rest text) => parseLoop segments [] (textAcc ++ text)
    | .ok (.styled before content styleStr rest) =>
      parseLoop (flushTextAcc (textAcc ++ before) segments ++ [.styled content styleStr]) rest []
    | .ok (.conditional before inner rest) => do
      let inner ← parseLoop [] inner []
      parseLoop (flushTextAcc (textAcc ++ before) segments ++ [.conditional inner]) rest []
    | .ok (.literal text rest) => parseLoop segments rest (textAcc ++ text)
termination_by remaining.length
decreasing_by
  · exact List.length_pos_iff.2 ‹_›
  · exact shorter_of_nextChunk hc
  · exact (shorter_of_nextChunk hc).1
  · exact (shorter_of_nextChunk hc).2
  · exact shorter_of_nextChunk hc

def parseSegments (format : Str) : Fallible (List Segment) := parseLoop [] format []

/-! ## The grammar of formats -/

/-- A text as segments: none for the empty one. -/
def textOf (t : Str) : List Segment := flushTextAcc t []

@[simp] theorem textOf_nil : textOf [] = [] := rfl

theorem textOf_of_ne {t : Str} (h : t ≠ []) : textOf t = [.text t] := if_neg h

theorem flushTextAcc_eq (t : Str) (segments : List Segment) :
    flushTextAcc t segments = segments ++ textOf t := by
  unfold textOf flushTextAcc
  by_cases h : t = []
  · simp [h]
  · simp [h]

/-- `Parses acc r out` — with the text `acc` read but not yet put out, the remaining text `r` gives
the segments `out`. -/
inductive Parses : Str → Str → List Segment → Prop
  | rest {acc r text : Str} : ChunkOf r (.rest text) → Parses acc r (textOf (acc ++ text))
  | styled {acc r before content styleStr rest : Str} {out : List Segment} :
      ChunkOf r (.styled before content styleStr rest) → Parses [] rest out →
      Parses acc r (textOf (acc ++ before) ++ .styled content styleStr :: out)
  | conditional {acc r before inner rest : Str} {segs out : List Segment} :
      ChunkOf r (.conditional before inner rest) → Parses [] inner segs → Parses [] rest out →
      Parses acc r (textOf (acc ++ before) ++ .conditional segs :: out)
  | literal {acc r text rest : Str} {out : List Segment} :
      ChunkOf r (.literal text rest) → Parses (acc ++ text) rest out → Parses acc r out

theorem Parses.nil (acc : Str) : Parses acc [] (textOf acc) := by
  have h : Parses acc [] (textOf (acc ++ [])) := .rest (.rest Plain.nil)
  rwa [List.append_nil] at h

/-- **The loop reads along the grammar.** -/
theorem exists_parses_parseLoop (segments : List Segment) (r acc : Str) :
    ∃ out, Parses acc r out ∧ parseLoop segments r acc = .ok (segments ++ out) := by
  fun_induction parseLoop segments r acc with
  | case1 segments acc =>
    refine ⟨textOf acc, Parses.nil acc, ?_⟩
    rw [flushTextAcc_eq]
  | case2 segments r acc hr p hc => exact absurd hc (nextChunk_ne_error r p)
  | case3 segments r acc hr text hc ih =>
    refine ⟨_, .rest (nextChunk_eq_ok.1 hc), ?_⟩
    rw [parseLoop, dif_pos rfl, flushTextAcc_eq]
  | case4 segments r acc hr before content styleStr rest hc ih =>
    obtain ⟨out, hp, hout⟩ := ih
    refine ⟨_, .styled (nextChunk_eq_ok.1 hc) hp, ?_⟩
    rw [hout, flushTextAcc_eq]
    simp
  | case5 segments r acc hr before inner rest hc ih₁ ih₂ =>
    obtain ⟨segs, hsegs, hi⟩ := ih₁
    obtain ⟨out, hp, hout⟩ := ih₂ segs
    refine ⟨_, .conditional (nextChunk_eq_ok.1 hc) hsegs hp, ?_⟩
    rw [hi, List.nil_append, ok_bind, hout, flushTextAcc_eq]
    simp
  | case6 segments r acc hr text rest hc ih =>
    obtain ⟨out, hp, hout⟩ := ih
    exact ⟨out, .literal (nextChunk_eq_ok.1 hc) hp, hout⟩

/-- The grammar is unambiguous. -/
theorem Parses.unique {acc r : Str} {out out' : List Segment} (h : Parses acc r out)
    (h' : Parses acc r out') : out = out' := by
  induction h generalizing out' with
  | rest hc =>
    cases h' with
    | rest hc' => cases hc.unique hc'; rfl
    | styled hc' | conditional hc' | literal hc' => cases hc.unique hc'
  | styled hc _ ih =>
    cases h' with
    | styled hc' hp => cases hc.unique hc'; rw [ih hp]
    | rest hc' | conditional hc' | literal hc' => cases hc.unique hc'
  | conditional hc _ _ ih₁ ih₂ =>
    cases h' with
    | conditional hc' hi hp => cases hc.unique hc'; rw [ih₁ hi, ih₂ hp]
    | rest hc' | styled hc' | literal hc' => cases hc.unique hc'
  | literal hc _ ih =>
    cases h' with
    | literal hc' hp => cases hc.unique hc'; exact ih hp
    | rest hc' | styled hc' | conditional hc' => cases hc.unique hc'

/-- **The parser is the grammar.** -/
theorem parseSegments_eq_ok {format : Str} {segments : List Segment} :
    parseSegments format = .ok segments ↔ Parses [] format segments := by
  obtain ⟨out, hp, hout⟩ := exists_parses_parseLoop [] format []
  unfold parseSegments
  rw [hout, List.nil_append]
  constructor
  · intro h; cases h; exact hp
  · intro h; rw [hp.unique h]

theorem exists_parses (acc r : Str) : ∃ segments, Parses acc r segments := by
  obtain ⟨out, hp, -⟩ := exists_parses_parseLoop [] r acc
  exact ⟨out, hp⟩

/-- A text without `)` has no parts. -/
theorem Parses.eq_textOf {acc r : Str} {out : List Segment} (h : Parses acc r out)
    (hr : ')' ∉ r) : out = textOf (acc ++ r) := by
  induction h with
  | rest hc => cases hc; rfl
  | styled hc _ _ =>
    cases hc with
    | styled heq => exact absurd (by simp [heq, styledTail]) hr
  | conditional hc _ _ _ =>
    cases hc with
    | conditional heq => exact absurd (by simp [heq]) hr
  | literal hc _ ih =>
    have htail : ∀ {text rest : Str} {c : Char}, ')' ∉ text ++ c :: rest → ')' ∉ rest := by
      intro text rest c hno hmem
      exact hno (by simp [hmem])
    cases hc with
    | openBracket heq _ _ =>
      subst heq
      rw [ih (htail hr)]
      simp
    | openParen heq _ _ =>
      subst heq
      rw [ih (htail hr)]
      simp

end MergeReady.Evaluation
