import Mathlib.Data.String.Basic
import Mathlib.Order.Bounds.Basic
import MergeReady.Daemon.RateLimitClient
import MergeReady.Lib.Meter
import MergeReady.Lib.Sort
import MergeReady.Lib.Str
import MergeReady.Lib.Terminal

/-!
# The watch table

One row for each entry under a header, in five columns padded to the widest cell.  A cell is as wide
as a terminal shows it: an escape is skipped up to the next `m`, and every other character has the
width the Unicode package gives it.  The lines of the table are equally wide because every cell ends
the escapes it starts, so that the width of a line is the sum of the widths of its parts.

`charWidth` is that package, `formatDuration` the one that writes out a span of time, and `clock i` the
reading of the wall clock that the `i`-th row is written with.
-/

namespace MergeReady.Daemon

open MergeReady.Lib MergeReady.Lib.Str MergeReady.Lib.Terminal

/-! ## Entries and rows -/

/-- An entry for display. -/
structure EntryView where
  cwd : String
  branch : String
  prId : Option UInt64
  output : String
  cachedAtSecs : UInt64
deriving DecidableEq

/-- The comparison the table is sorted by. -/
def EntryView.cmp (a b : EntryView) : Ordering :=
  (compare a.cwd b.cwd).then ((compare a.branch b.branch).then (compare a.prId b.prId))

structure TableRow where
  cwd : Str
  branch : Str
  pr : Str
  status : Str
  cachedAt : Str
deriving DecidableEq

def TableRow.header : TableRow :=
  { cwd := "CWD".toList
    branch := "BRANCH".toList
    pr := "PR".toList
    status := "STATUS".toList
    cachedAt := "CACHED AT".toList }

def formatPrId : Option UInt64 → Str
  | none => []
  | some id => '#' :: (toString id).toList

section

variable (formatDuration : Duration → Str)

def formatElapsed (elapsedSecs : UInt64) : Str :=
  formatDuration (.ofSecs elapsedSecs) ++ " ago".toList

def formatCachedAt (now : SystemTime) (cachedAtSecs : UInt64) : Str :=
  let now := ((now.durationSince UNIX_EPOCH).getD (.ofSecs 0)).asSecs
  formatElapsed formatDuration (satSub now cachedAtSecs)

def TableRow.fromEntry (now : SystemTime) (entry : EntryView) : TableRow :=
  { cwd := entry.cwd.toList
    branch := entry.branch.toList
    pr := formatPrId entry.prId
    status := entry.output.toList
    cachedAt := formatCachedAt formatDuration now entry.cachedAtSecs }

end

/-! ## Widths -/

section

variable (charWidth : Char → Option ℕ)

/-- The width so far and `in_escape`, after one more character. -/
def displayWidthStep : ℕ × Bool → Char → ℕ × Bool
  | (width, inEscape), c =>
    if c = ESC then (width, true)
    else if inEscape then
      if c = 'm' then (width, false) else (width, inEscape)
    else (width + (charWidth c).getD 0, inEscape)

def displayWidth (s : Str) : ℕ := (s.foldl (displayWidthStep charWidth) (0, false)).1

structure TableWidths where
  cwd : ℕ
  branch : ℕ
  pr : ℕ
  status : ℕ
  cachedAt : ℕ
deriving DecidableEq

def maxWidth (widths : List ℕ) (headerWidth : ℕ) : ℕ := max (widths.max?.getD 0) headerWidth

def TableWidths.fromRows (header : TableRow) (rows : List TableRow) : TableWidths :=
  { cwd := maxWidth (rows.map fun row => displayWidth charWidth row.cwd)
      (displayWidth charWidth header.cwd)
    branch := maxWidth (rows.map fun row => displayWidth charWidth row.branch)
      (displayWidth charWidth header.branch)
    pr := maxWidth (rows.map fun row => displayWidth charWidth row.pr)
      (displayWidth charWidth header.pr)
    status := maxWidth (rows.map fun row => displayWidth charWidth row.status)
      (displayWidth charWidth header.status)
    cachedAt := maxWidth (rows.map fun row => displayWidth charWidth row.cachedAt)
      (displayWidth charWidth header.cachedAt) }

/-! ## Printing -/

inductive Align
  | left
  | right

def pushSpaces (out : Str) : ℕ → Str
  | 0 => out
  | n + 1 => pushSpaces (out ++ [' ']) n

def pushPadded (out cell : Str) (width : ℕ) (align : Align) : Str :=
  let pad := width - displayWidth charWidth cell
  match align with
  | .left => pushSpaces (out ++ cell) pad
  | .right => pushSpaces out pad ++ cell

def writeRow (out : Str) (row : TableRow) (widths : TableWidths) : Str :=
  let out := pushPadded charWidth out row.cwd widths.cwd .left
  let out := out ++ [' ', ' ']
  let out := pushPadded charWidth out row.branch widths.branch .left
  let out := out ++ [' ', ' ']
  let out := pushPadded charWidth out row.pr widths.pr .left
  let out := out ++ [' ', ' ']
  let out := pushPadded charWidth out row.status widths.status .left
  let out := out ++ [' ', ' ']
  let out := pushPadded charWidth out row.cachedAt widths.cachedAt .right
  out ++ ['\n']

variable (formatDuration : Duration → Str) (clock : ℕ → SystemTime)

/-- The rows under the header. -/
def tableRows (sorted : List EntryView) : List TableRow :=
  sorted.mapIdx fun i e => .fromEntry formatDuration (clock i) e

def formatTable (entries : List EntryView) : Str :=
  if entries.isEmpty then "no entries cached\n".toList
  else
    let sorted := sortBy EntryView.cmp entries
    let rows := tableRows formatDuration clock sorted
    let widths := TableWidths.fromRows charWidth .header rows
    let out := writeRow charWidth [] .header widths
    rows.foldl (fun out row => writeRow charWidth out row widths) out

end

/-! ## The order of the rows -/

/-- `a` may stand before `b`: by directory, then by branch, then by PR, those without one first. -/
def EntryView.Precedes (a b : EntryView) : Prop :=
  a.cwd < b.cwd ∨ a.cwd = b.cwd ∧ (a.branch < b.branch ∨ a.branch = b.branch ∧ a.prId ≤ b.prId)

theorem isLE_compare_prId (o o' : Option UInt64) : (compare o o').isLE = true ↔ o ≤ o' := by
  cases o with
  | none => cases o' <;> simp [compare, LE.le, Option.le]
  | some a =>
    cases o' with
    | none => simp [compare, LE.le, Option.le]
    | some b => exact Std.LawfulOrderOrd.isLE_compare a b

theorem EntryView.isLE_cmp (a b : EntryView) : (cmp a b).isLE = true ↔ a.Precedes b := by
  unfold cmp Precedes
  rw [Ordering.isLE_then_iff_or, Ordering.isLE_then_iff_or, compare_lt_iff_lt, compare_eq_iff_eq,
    compare_lt_iff_lt, compare_eq_iff_eq, isLE_compare_prId]

instance : Std.TransCmp EntryView.cmp :=
  inferInstanceAs (Std.TransCmp (compareLex (compareOn EntryView.cwd)
    (compareLex (compareOn EntryView.branch) (compareOn EntryView.prId))))

theorem pairwise_sorted (entries : List EntryView) :
    (sortBy EntryView.cmp entries).Pairwise EntryView.Precedes :=
  (pairwise_sortBy entries).imp fun h => (EntryView.isLE_cmp _ _).1 h

/-! ## The width of a text -/

/-- Every escape of the text ends in it. -/
def EscapesEnd (s : Str) : Prop := ∀ c after, c :: after <:+ s → c = ESC → 'm' ∈ after

@[simp] theorem escapesEnd_nil : EscapesEnd [] := by
  intro c after h
  simp at h

theorem escapesEnd_cons {c : Char} {s : Str} :
    EscapesEnd (c :: s) ↔ (c = ESC → 'm' ∈ s) ∧ EscapesEnd s :=
  forall_suffix_cons

section

variable (charWidth : Char → Option ℕ)

/-- The loop of `display_width` as a meter; the state says whether an escape is open. -/
def widthMeter : Meter Bool Char where
  start := false
  step inEscape c := if c = ESC then true else if c = 'm' then false else inEscape
  weight inEscape c := if c = ESC ∨ inEscape = true then 0 else (charWidth c).getD 0

theorem m_ne_ESC : 'm' ≠ ESC := by decide

theorem step_ESC (inEscape : Bool) : (widthMeter charWidth).step inEscape ESC = true := by
  simp [widthMeter]

theorem step_m (inEscape : Bool) : (widthMeter charWidth).step inEscape 'm' = false := by
  simp [widthMeter, m_ne_ESC]

theorem step_of_ne {c : Char} (hc : c ≠ ESC) (hm : c ≠ 'm') (inEscape : Bool) :
    (widthMeter charWidth).step inEscape c = inEscape := by
  simp [widthMeter, hc, hm]

theorem displayWidthStep_eq (width : ℕ) (inEscape : Bool) (c : Char) :
    displayWidthStep charWidth (width, inEscape) c =
      (width + (widthMeter charWidth).weight inEscape c, (widthMeter charWidth).step inEscape c) := by
  rcases eq_or_ne c ESC with rfl | hc
  · simp [displayWidthStep, widthMeter]
  rcases eq_or_ne c 'm' with rfl | hm
  · rw [step_m]
    cases inEscape <;> simp [displayWidthStep, widthMeter, m_ne_ESC]
  · rw [step_of_ne charWidth hc hm]
    cases inEscape <;> simp [displayWidthStep, widthMeter, hc, hm]

theorem displayWidth_eq (s : Str) : displayWidth charWidth s = (widthMeter charWidth).measure s := by
  unfold displayWidth Meter.measure
  rw [Meter.foldl_eq _ (displayWidthStep_eq charWidth), Nat.zero_add]
  rfl

/-- The scanner is outside an escape at the end of a text exactly when the escapes of the text end in
it, and an escape that was open before ends in it, too. -/
theorem after_widthMeter (s : Str) :
    ((widthMeter charWidth).after false s = false ↔ EscapesEnd s) ∧
      ((widthMeter charWidth).after true s = false ↔ 'm' ∈ s ∧ EscapesEnd s) := by
  induction s with
  | nil => simp [Meter.after]
  | cons c s ih =>
    obtain ⟨ihOut, ihIn⟩ := ih
    rw [Meter.after_cons, Meter.after_cons, escapesEnd_cons, List.mem_cons]
    rcases eq_or_ne c ESC with rfl | hc
    · rw [step_ESC, step_ESC, ihIn]
      simp [m_ne_ESC]
    rcases eq_or_ne c 'm' with rfl | hm
    · rw [step_m, step_m, ihOut]
      simp [m_ne_ESC]
    · rw [step_of_ne charWidth hc hm, step_of_ne charWidth hc hm, ihOut, ihIn]
      simp [hc, Ne.symm hm]

theorem closed_widthMeter_iff {s : Str} : (widthMeter charWidth).Closed s ↔ EscapesEnd s :=
  (after_widthMeter charWidth s).1

instance (s : Str) : Decidable (EscapesEnd s) :=
  decidable_of_iff ((widthMeter fun _ => none).Closed s) (closed_widthMeter_iff _)

theorem isBlank_space (hspace : charWidth ' ' = some 1) : (widthMeter charWidth).IsBlank ' ' where
  step := rfl
  weight := by
    have hne : ' ' ≠ ESC := by decide
    simp [widthMeter, hne, hspace]

/-! ## The columns -/

theorem maxWidth_mem (widths : List ℕ) (headerWidth : ℕ) :
    maxWidth widths headerWidth = headerWidth ∨ maxWidth widths headerWidth ∈ widths := by
  unfold maxWidth
  cases h : widths.max? with
  | none => exact .inl (Nat.zero_max _)
  | some w =>
    rw [Option.getD_some]
    rcases max_choice w headerWidth with heq | heq
    · rw [heq]
      exact .inr (List.max?_eq_some_iff.1 h).1
    · exact .inl heq

theorem le_maxWidth {widths : List ℕ} {n : ℕ} (h : n ∈ widths) (headerWidth : ℕ) :
    n ≤ maxWidth widths headerWidth := by
  unfold maxWidth
  cases hmax : widths.max? with
  | none =>
    rw [List.max?_eq_none_iff.1 hmax] at h
    cases h
  | some w => exact le_max_of_le_left ((List.max?_eq_some_iff.1 hmax).2 n h)

/-- `width` is the greatest width of a column. -/
def IsColumnMax (rows : List TableRow) (cell : TableRow → Str) (width : ℕ) : Prop :=
  IsGreatest {n | ∃ row ∈ rows, displayWidth charWidth (cell row) = n} width

/-- Each column is as wide as its widest cell. -/
structure TableWidths.Fits (rows : List TableRow) (widths : TableWidths) : Prop where
  cwd : IsColumnMax charWidth rows TableRow.cwd widths.cwd
  branch : IsColumnMax charWidth rows TableRow.branch widths.branch
  pr : IsColumnMax charWidth rows TableRow.pr widths.pr
  status : IsColumnMax charWidth rows TableRow.status widths.status
  cachedAt : IsColumnMax charWidth rows TableRow.cachedAt widths.cachedAt

variable {charWidth}

theorem isColumnMax_maxWidth (header : TableRow) (rows : List TableRow) (cell : TableRow → Str) :
    IsColumnMax charWidth (header :: rows) cell
      (maxWidth (rows.map fun row => displayWidth charWidth (cell row))
        (displayWidth charWidth (cell header))) := by
  constructor
  · rcases maxWidth_mem (rows.map fun row => displayWidth charWidth (cell row))
      (displayWidth charWidth (cell header)) with heq | hmem
    · exact ⟨header, List.mem_cons_self, heq.symm⟩
    · obtain ⟨row, hrow, heq⟩ := List.mem_map.1 hmem
      exact ⟨row, List.mem_cons_of_mem _ hrow, heq⟩
  · rintro _ ⟨row, hrow, rfl⟩
    rcases List.mem_cons.1 hrow with rfl | hrow
    · exact le_max_right _ _
    · have hwidth := List.mem_map_of_mem (f := fun row => displayWidth charWidth (cell row)) hrow
      exact le_maxWidth hwidth _

theorem TableWidths.fits_fromRows (header : TableRow) (rows : List TableRow) :
    (TableWidths.fromRows charWidth header rows).Fits charWidth (header :: rows) where
  cwd := isColumnMax_maxWidth header rows TableRow.cwd
  branch := isColumnMax_maxWidth header rows TableRow.branch
  pr := isColumnMax_maxWidth header rows TableRow.pr
  status := isColumnMax_maxWidth header rows TableRow.status
  cachedAt := isColumnMax_maxWidth header rows TableRow.cachedAt

theorem IsColumnMax.le {rows : List TableRow} {cell : TableRow → Str} {width : ℕ}
    (h : IsColumnMax charWidth rows cell width) {row : TableRow} (hrow : row ∈ rows) :
    displayWidth charWidth (cell row) ≤ width := h.2 ⟨row, hrow, rfl⟩

/-! ## The text of a row -/

theorem pushSpaces_eq (out : Str) (n : ℕ) : pushSpaces out n = out ++ List.replicate n ' ' := by
  induction n generalizing out with
  | zero => rw [pushSpaces, List.replicate_zero, List.append_nil]
  | succ n ih =>
    rw [pushSpaces, ih, List.append_assoc, List.replicate_succ]
    rfl

variable (charWidth)

/-- A cell filled up with spaces, behind it or in front of it. -/
def padded (cell : Str) (width : ℕ) : Align → Str
  | .left => cell ++ List.replicate (width - displayWidth charWidth cell) ' '
  | .right => List.replicate (width - displayWidth charWidth cell) ' ' ++ cell

theorem pushPadded_eq (out cell : Str) (width : ℕ) (align : Align) :
    pushPadded charWidth out cell width align = out ++ padded charWidth cell width align := by
  unfold padded pushPadded
  cases align with
  | left => exact (pushSpaces_eq _ _).trans (List.append_assoc _ _ _)
  | right =>
    dsimp only
    rw [pushSpaces_eq, List.append_assoc]

/-- The cells of a row and what is between them. -/
def rowParts (row : TableRow) (widths : TableWidths) : List Str :=
  [padded charWidth row.cwd widths.cwd .left, [' ', ' '],
    padded charWidth row.branch widths.branch .left, [' ', ' '],
    padded charWidth row.pr widths.pr .left, [' ', ' '],
    padded charWidth row.status widths.status .left, [' ', ' '],
    padded charWidth row.cachedAt widths.cachedAt .right]

/-- The line of a row. -/
def rowText (row : TableRow) (widths : TableWidths) : Str := (rowParts charWidth row widths).flatten

theorem writeRow_eq (out : Str) (row : TableRow) (widths : TableWidths) :
    writeRow charWidth out row widths = out ++ (rowText charWidth row widths ++ ['\n']) := by
  simp [writeRow, pushPadded_eq, rowText, rowParts]

theorem foldl_writeRow (out : Str) (rows : List TableRow) (widths : TableWidths) :
    rows.foldl (fun out row => writeRow charWidth out row widths) out =
      out ++ rows.flatMap fun row => rowText charWidth row widths ++ ['\n'] := by
  induction rows generalizing out with
  | nil => simp
  | cons row rows ih =>
    rw [List.foldl_cons, ih, writeRow_eq, List.flatMap_cons, List.append_assoc]

theorem formatTable_eq (formatDuration : Duration → Str) (clock : ℕ → SystemTime)
    {entries : List EntryView} (hne : entries ≠ []) :
    let rows := tableRows formatDuration clock (sortBy EntryView.cmp entries)
    formatTable charWidth formatDuration clock entries =
      (TableRow.header :: rows).flatMap fun row =>
        rowText charWidth row (.fromRows charWidth .header rows) ++ ['\n'] := by
  have hempty : ¬ entries.isEmpty = true := by simpa using hne
  unfold formatTable
  rw [if_neg hempty]
  dsimp only
  rw [foldl_writeRow, writeRow_eq, List.nil_append, List.flatMap_cons]

end

/-! ## Clean rows -/

/-- A text on one line, which ends its escapes. -/
def OneLine (s : Str) : Prop := '\n' ∉ s ∧ EscapesEnd s

instance (s : Str) : Decidable (OneLine s) :=
  inferInstanceAs (Decidable ('\n' ∉ s ∧ EscapesEnd s))

theorem oneLine_of_plain {s : Str} (h : ∀ c ∈ s, isControl c = false) : OneLine s := by
  constructor
  · intro hlf
    have hcontrol : isControl '\n' = false := h _ hlf
    cases hcontrol
  · rintro c after hafter rfl
    have hcontrol : isControl ESC = false := h _ (hafter.subset List.mem_cons_self)
    cases hcontrol

theorem OneLine.append {s t : Str} (hs : OneLine s) (ht : OneLine t) : OneLine (s ++ t) := by
  refine ⟨fun hlf => ?_, ?_⟩
  · rcases List.mem_append.1 hlf with hlf | hlf
    · exact hs.1 hlf
    · exact ht.1 hlf
  · rw [← closed_widthMeter_iff fun _ => none]
    exact ((closed_widthMeter_iff _).2 hs.2).append ((closed_widthMeter_iff _).2 ht.2)

theorem oneLine_replicate_space (n : ℕ) : OneLine (List.replicate n ' ') := by
  refine oneLine_of_plain fun c hc => ?_
  rw [List.eq_of_mem_replicate hc]
  decide

/-- A row whose cells are on one line each; the last one is a plain text. -/
structure TableRow.Clean (row : TableRow) : Prop where
  cwd : OneLine row.cwd
  branch : OneLine row.branch
  pr : OneLine row.pr
  status : OneLine row.status
  cachedAt : ∀ c ∈ row.cachedAt, isControl c = false
  cachedAt_ne_nil : row.cachedAt ≠ []

theorem TableRow.clean_header : TableRow.header.Clean where
  cwd := oneLine_of_plain (not_isControl_of_all (by decide))
  branch := oneLine_of_plain (not_isControl_of_all (by decide))
  pr := oneLine_of_plain (not_isControl_of_all (by decide))
  status := oneLine_of_plain (not_isControl_of_all (by decide))
  cachedAt := not_isControl_of_all (by decide)
  cachedAt_ne_nil := by decide

theorem oneLine_formatPrId (prId : Option UInt64) : OneLine (formatPrId prId) := by
  refine oneLine_of_plain fun c hc => ?_
  cases prId with
  | none => cases hc
  | some id =>
    rcases List.mem_cons.1 hc with rfl | hc
    · decide
    · exact not_isControl_of_mem_toString hc

/-- A span of whole seconds is written with digits, letters and spaces. -/
def SpellsSeconds (formatDuration : Duration → Str) : Prop :=
  ∀ secs, ∀ c ∈ formatDuration (.ofSecs secs), c.isAlphanum = true ∨ c = ' '

theorem TableRow.clean_fromEntry {formatDuration : Duration → Str}
    (hduration : SpellsSeconds formatDuration) (now : SystemTime) {entry : EntryView}
    (hcwd : OneLine entry.cwd.toList) (hbranch : OneLine entry.branch.toList)
    (houtput : OneLine entry.output.toList) :
    (TableRow.fromEntry formatDuration now entry).Clean where
  cwd := hcwd
  branch := hbranch
  pr := oneLine_formatPrId entry.prId
  status := houtput
  cachedAt := by
    intro c hc
    rcases List.mem_append.1 hc with hc | hc
    · rcases hduration _ c hc with hc | rfl
      · exact not_isControl_of_isAlphanum hc
      · decide
    · exact not_isControl_of_all (by decide) c hc
  cachedAt_ne_nil := by
    refine List.append_ne_nil_of_right_ne_nil _ ?_
    decide

/-! ## The lines of the table -/

section

variable {charWidth : Char → Option ℕ} {rows : List TableRow} {row : TableRow}
  {widths : TableWidths}

theorem oneLine_padded {cell : Str} (h : OneLine cell) (width : ℕ) (align : Align) :
    OneLine (padded charWidth cell width align) := by
  cases align with
  | left => exact h.append (oneLine_replicate_space _)
  | right => exact (oneLine_replicate_space _).append h

/-- A closed cell is as wide as its column once it is filled up. -/
theorem displayWidth_padded (hspace : charWidth ' ' = some 1) {cell : Str} (hcell : EscapesEnd cell)
    {width : ℕ} (hw : displayWidth charWidth cell ≤ width) (align : Align) :
    displayWidth charWidth (padded charWidth cell width align) = width := by
  have hblank := isBlank_space charWidth hspace
  rw [displayWidth_eq] at hw
  cases align with
  | left =>
    rw [padded, displayWidth_eq, displayWidth_eq]
    exact hblank.measure_append_replicate ((closed_widthMeter_iff _).2 hcell) hw
  | right =>
    rw [padded, displayWidth_eq, displayWidth_eq]
    exact hblank.measure_replicate_append hw

theorem oneLine_rowParts (hrow : row.Clean) : ∀ part ∈ rowParts charWidth row widths, OneLine part := by
  have hgap : OneLine [' ', ' '] := oneLine_replicate_space 2
  simp only [rowParts, List.forall_mem_cons]
  exact ⟨oneLine_padded hrow.cwd _ _, hgap, oneLine_padded hrow.branch _ _, hgap,
    oneLine_padded hrow.pr _ _, hgap, oneLine_padded hrow.status _ _, hgap,
    oneLine_padded (oneLine_of_plain hrow.cachedAt) _ _, nofun⟩

/-- **The width of a line**: the columns, and two spaces between each and the next. -/
theorem displayWidth_rowText (hspace : charWidth ' ' = some 1) (hfits : widths.Fits charWidth rows)
    (hmem : row ∈ rows) (hrow : row.Clean) :
    displayWidth charWidth (rowText charWidth row widths) =
      widths.cwd + widths.branch + widths.pr + widths.status + widths.cachedAt + 8 := by
  have hclosed : ∀ part ∈ rowParts charWidth row widths, (widthMeter charWidth).Closed part :=
    fun part hpart => (closed_widthMeter_iff _).2 (oneLine_rowParts hrow part hpart).2
  have hgap : displayWidth charWidth [' ', ' '] = 2 := by
    rw [displayWidth_eq]
    exact (isBlank_space charWidth hspace).measure_replicate 2
  rw [displayWidth_eq, rowText, Meter.measure_flatten hclosed]
  simp only [rowParts, List.map_cons, List.map_nil, List.sum_cons, List.sum_nil, ← displayWidth_eq]
  rw [hgap, displayWidth_padded hspace hrow.cwd.2 (hfits.cwd.le hmem),
    displayWidth_padded hspace hrow.branch.2 (hfits.branch.le hmem),
    displayWidth_padded hspace hrow.pr.2 (hfits.pr.le hmem),
    displayWidth_padded hspace hrow.status.2 (hfits.status.le hmem),
    displayWidth_padded hspace (oneLine_of_plain hrow.cachedAt).2 (hfits.cachedAt.le hmem)]
  omega

theorem lf_notMem_rowText (hrow : row.Clean) : '\n' ∉ rowText charWidth row widths := by
  intro hlf
  obtain ⟨part, hpart, hlf⟩ := List.mem_flatten.1 hlf
  exact (oneLine_rowParts hrow part hpart).1 hlf

/-- A line ends in the plain text of its last cell. -/
theorem getLast?_rowText_ne_cr (hrow : row.Clean) :
    (rowText charWidth row widths).getLast? ≠ some '\r' := by
  have hend : ∃ front, rowText charWidth row widths = front ++ row.cachedAt := by
    refine ⟨((rowParts charWidth row widths).take 8).flatten ++
      List.replicate (widths.cachedAt - displayWidth charWidth row.cachedAt) ' ', ?_⟩
    simp [rowText, rowParts, padded]
  obtain ⟨front, hend⟩ := hend
  intro hcr
  rw [hend, List.getLast?_append_of_ne_nil _ hrow.cachedAt_ne_nil] at hcr
  have hcontrol := hrow.cachedAt _ (List.mem_of_getLast? hcr)
  cases hcontrol

theorem lines_rows (hrows : ∀ row ∈ rows, row.Clean) :
    lines (rows.flatMap fun row => rowText charWidth row widths ++ ['\n']) =
      rows.map fun row => rowText charWidth row widths := by
  have hflat : (rows.flatMap fun row => rowText charWidth row widths ++ ['\n']) =
      (rows.map fun row => rowText charWidth row widths).flatMap fun line => line ++ ['\n'] := by
    rw [List.flatMap_map]
  rw [hflat]
  refine lines_flatMap ?_ ?_
  · intro line hline
    obtain ⟨row, hrow, rfl⟩ := List.mem_map.1 hline
    exact lf_notMem_rowText (hrows row hrow)
  · intro line hline
    obtain ⟨row, hrow, rfl⟩ := List.mem_map.1 hline
    exact getLast?_rowText_ne_cr (hrows row hrow)

/-- `text` is the table of `rows`: each column as wide as its widest cell, one line for each row, and
all lines as wide as the columns and the four gaps of two between them. -/
structure IsTable (charWidth : Char → Option ℕ) (rows : List TableRow) (widths : TableWidths)
    (text : Str) : Prop where
  fits : widths.Fits charWidth rows
  lines_eq : lines text = rows.map fun row => rowText charWidth row widths
  width : ∀ line ∈ lines text, displayWidth charWidth line =
    widths.cwd + widths.branch + widths.pr + widths.status + widths.cachedAt + 8

theorem isTable_of_clean (hspace : charWidth ' ' = some 1) (hfits : widths.Fits charWidth rows)
    (hrows : ∀ row ∈ rows, row.Clean) :
    IsTable charWidth rows widths
      (rows.flatMap fun row => rowText charWidth row widths ++ ['\n']) where
  fits := hfits
  lines_eq := lines_rows hrows
  width := by
    intro line hline
    rw [lines_rows hrows] at hline
    obtain ⟨row, hrow, rfl⟩ := List.mem_map.1 hline
    exact displayWidth_rowText hspace hfits hrow (hrows row hrow)

theorem clean_of_mem_tableRows {formatDuration : Duration → Str}
    (hduration : SpellsSeconds formatDuration) {clock : ℕ → SystemTime} {entries : List EntryView}
    (hcwd : ∀ e ∈ entries, OneLine e.cwd.toList) (hbranch : ∀ e ∈ entries, OneLine e.branch.toList)
    (houtput : ∀ e ∈ entries, OneLine e.output.toList) :
    ∀ row ∈ tableRows formatDuration clock entries, row.Clean := by
  intro row hrow
  obtain ⟨i, hi, rfl⟩ := List.mem_mapIdx.1 hrow
  have hmem := List.getElem_mem hi
  exact TableRow.clean_fromEntry hduration _ (hcwd _ hmem) (hbranch _ hmem) (houtput _ hmem)

/-- `RowOf formatDuration now e row` — the row shows where the entry is, its branch and number, its
output, and the whole seconds since it was cached. -/
structure RowOf (formatDuration : Duration → Str) (now : SystemTime) (e : EntryView)
    (row : TableRow) : Prop where
  cwd : row.cwd = e.cwd.toList
  branch : row.branch = e.branch.toList
  pr_some : ∀ id, e.prId = some id → row.pr = '#' :: (toString id).toList
  pr_none : e.prId = none → row.pr = []
  status : row.status = e.output.toList
  cachedAt : ∃ age : UInt64, age.toNat = (now.nanos / 1000000000).toNat - e.cachedAtSecs.toNat ∧
    row.cachedAt = formatDuration (.ofSecs age) ++ " ago".toList

theorem toNat_asSecs_since_epoch (now : SystemTime) :
    ((now.durationSince UNIX_EPOCH).getD (.ofSecs 0)).asSecs.toNat =
      (now.nanos / 1000000000).toNat := by
  have hsince : ((now.durationSince UNIX_EPOCH).getD (.ofSecs 0)).nanos = now.nanos.toNat := by
    have h := Timespec.nanos_saturatingDurationSince now UNIX_EPOCH
    rwa [nanos_epoch, sub_zero] at h
  rw [Duration.toNat_asSecs, hsince]
  omega

theorem rowOf_fromEntry (formatDuration : Duration → Str) (now : SystemTime) (e : EntryView) :
    RowOf formatDuration now e (.fromEntry formatDuration now e) where
  cwd := rfl
  branch := rfl
  pr_some id h := by
    show formatPrId e.prId = _
    rw [h]
    rfl
  pr_none h := by
    show formatPrId e.prId = _
    rw [h]
    rfl
  status := rfl
  cachedAt := ⟨_, by rw [toNat_satSub, toNat_asSecs_since_epoch], rfl⟩

/-- **The watch table is aligned for every content**, and its rows are the entries in order, one for
each. -/
theorem formatTable_aligned (hspace : charWidth ' ' = some 1) {formatDuration : Duration → Str}
    (hduration : SpellsSeconds formatDuration) (clock : ℕ → SystemTime) {entries : List EntryView}
    (hne : entries ≠ []) (hcwd : ∀ e ∈ entries, OneLine e.cwd.toList)
    (hbranch : ∀ e ∈ entries, OneLine e.branch.toList)
    (houtput : ∀ e ∈ entries, OneLine e.output.toList) :
    ∃ (sorted : List EntryView) (rows : List TableRow) (widths : TableWidths),
      sorted.Perm entries ∧ sorted.Pairwise EntryView.Precedes ∧
        rows.length = sorted.length ∧
        (∀ i e row, sorted[i]? = some e → rows[i]? = some row →
          RowOf formatDuration (clock i) e row) ∧
        IsTable charWidth (.header :: rows) widths
          (formatTable charWidth formatDuration clock entries) := by
  have hperm : (sortBy EntryView.cmp entries).Perm entries := List.mergeSort_perm _ _
  have hmem : ∀ e, e ∈ sortBy EntryView.cmp entries → e ∈ entries := fun e => hperm.mem_iff.1
  let rows := tableRows formatDuration clock (sortBy EntryView.cmp entries)
  refine ⟨sortBy EntryView.cmp entries, rows, .fromRows charWidth .header rows, hperm,
    pairwise_sorted entries, List.length_mapIdx, fun i e row he hrow => ?_, ?_⟩
  · rw [show rows[i]? = _ from List.getElem?_mapIdx, he] at hrow
    obtain rfl := Option.some.inj hrow
    exact rowOf_fromEntry _ _ _
  rw [formatTable_eq charWidth formatDuration clock hne]
  refine isTable_of_clean hspace (TableWidths.fits_fromRows _ _) ?_
  rw [List.forall_mem_cons]
  refine ⟨TableRow.clean_header, clean_of_mem_tableRows hduration ?_ ?_ ?_⟩
  · exact fun e he => hcwd e (hmem e he)
  · exact fun e he => hbranch e (hmem e he)
  · exact fun e he => houtput e (hmem e he)

/-- Ideographs take two columns, controls none, and everything else one. -/
def ideographWidth (c : Char) : Option ℕ :=
  if isControl c then none else if '\u3040' ≤ c ∧ c ≤ '\u9fff' then some 2 else some 1

/-- A span below a minute. -/
def spellSeconds (d : Duration) : Str := (toString d.asSecs).toList ++ ['s']

theorem spellsSeconds_spellSeconds : SpellsSeconds spellSeconds := by
  intro secs c hc
  rcases List.mem_append.1 hc with hc | hc
  · exact .inl (isAlphanum_of_mem_toString hc)
  · rw [List.mem_singleton.1 hc]
    exact .inl (by decide)

def cjkEntries : List EntryView :=
  [{ cwd := "/repo", branch := "main", prId := some 2, output := "\x1b[32m✓ Ready\x1b[0m"
     cachedAtSecs := 1000 },
    { cwd := "/repo", branch := "feat/機能追加", prId := none, output := "✓ Ready"
      cachedAtSecs := 1018 }]

/-- Entries with wide characters and colours, refreshed 23 and 5 seconds ago. -/
theorem formatTable_aligned_cjk :
    ∃ (rows : List TableRow) (widths : TableWidths),
      IsTable ideographWidth (.header :: rows) widths
        (formatTable ideographWidth spellSeconds (fun _ => .ofSecs 1023) cjkEntries) ∧
      rows.length = 2 ∧ ∃ row ∈ rows, row.cwd = "/repo".toList ∧ row.branch = "main".toList ∧
        row.pr = "#2".toList ∧ row.cachedAt = "23s ago".toList := by
  obtain ⟨sorted, rows, widths, hperm, -, hlen, hrows, htable⟩ :=
    formatTable_aligned (by decide : ideographWidth ' ' = some 1) spellsSeconds_spellSeconds
      (fun _ => .ofSecs 1023) (by decide : cjkEntries ≠ []) (by decide) (by decide) (by decide)
  refine ⟨rows, widths, htable, hlen.trans hperm.length_eq, ?_⟩
  obtain ⟨i, hi, he⟩ := List.getElem_of_mem (hperm.mem_iff.2 (List.mem_cons_self ..))
  have hrow := hrows i _ _ (List.getElem?_eq_getElem hi) (List.getElem?_eq_getElem (hlen ▸ hi))
  rw [he] at hrow
  obtain ⟨age, hage, hcached⟩ := hrow.cachedAt
  refine ⟨_, List.getElem_mem (hlen ▸ hi), hrow.cwd, hrow.branch, hrow.pr_some 2 rfl, ?_⟩
  have h23 : age = 23 := UInt64.toNat_inj.1 hage
  rw [hcached, h23]
  decide

end

end MergeReady.Daemon
