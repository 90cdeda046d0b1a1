import MergeReady.Evaluation.AnsiStyle
import MergeReady.Evaluation.DisplayConfig

/-!
# Rendering a token

`renderToken` replaces the variables in the texts of a compiled format, paints its styled parts, and
leaves out a conditional part whose variables are all empty.  `paint` stands for the painting of the
terminal package.
-/

namespace MergeReady.Evaluation

open MergeReady.Lib

/-- The variables with their values, by name. -/
abbrev Vars := List (Str × Str)

/-! ## Variables in a text -/

/-- A character of a variable's name, `is_ascii_alphanumeric` or `_`. -/
def isNameChar (c : Char) : Bool := c.isAlphanum || c == '_'

def extractVarNames : Str → List Str
  | [] => []
  | c :: s =>
    if c = '$' then
      let name := s.takeWhile isNameChar
      if name ≠ [] then name :: extractVarNames (s.dropWhile isNameChar)
      else extractVarNames (s.dropWhile isNameChar)
    else extractVarNames s
termination_by s => s.length
decreasing_by
  · exact Nat.lt_succ_of_le (List.dropWhile_sublist _).length_le
  · exact Nat.lt_succ_of_le (List.dropWhile_sublist _).length_le
  · exact Nat.lt_succ_self _

/-- `vars.iter().find(|(k, _)| *k == name)` -/
def Vars.get (vars : Vars) (name : Str) : Option Str :=
  (vars.find? fun p => p.1 = name).map Prod.snd

def substituteVars (vars : Vars) : Str → Str
  | [] => []
  | c :: s =>
    if c = '$' then
      let name := s.takeWhile isNameChar
      if name ≠ [] then
        match vars.get name with
        | some val => val ++ substituteVars vars (s.dropWhile isNameChar)
        -- an unknown variable stays as it is written
        | none => '$' :: name ++ substituteVars vars (s.dropWhile isNameChar)
      else '$' :: substituteVars vars s
    else
      -- all characters up to the next `$` at once
      c :: s.takeWhile (· ≠ '$') ++ substituteVars vars (s.dropWhile (· ≠ '$'))
termination_by s => s.length
decreasing_by
  · exact Nat.lt_succ_of_le (List.dropWhile_sublist _).length_le
  · exact Nat.lt_succ_of_le (List.dropWhile_sublist _).length_le
  · exact Nat.lt_succ_self _
  · exact Nat.lt_succ_of_le (List.dropWhile_sublist _).length_le

/-! ## Compiled segments -/

mutual

def collectVarRefs : List CompiledSegment → List Str
  | [] => []
  | seg :: segs => varRefs seg ++ collectVarRefs segs

/-- The body of the loop of `collect_var_refs`. -/
def varRefs : CompiledSegment → List Str
  | .text t => extractVarNames t
  | .styled content _ => collectVarRefs content
  | .conditional inner => collectVarRefs inner

end

/-- `eval_conditional`, with the value of the inner segments as `shown`. -/
def evalConditional (inner : List CompiledSegment) (vars : Vars) (shown : Str) : Str :=
  let refs := collectVarRefs inner
  if refs = [] then []
  else
    let allEmpty := refs.all fun name =>
      match vars.get name with
      | some v => v.isEmpty
      | none => true
    if allEmpty then [] else shown

section

variable (paint : AnsiStyle → Str → Str) (vars : Vars)

mutual

def evalSegments : List CompiledSegment → Str
  | [] => []
  | seg :: segs => evalSegment seg ++ evalSegments segs

def evalSegment : CompiledSegment → Str
  | .text t => substituteVars vars t
  | .styled content style => paint style.toAnsiStyle (evalSegments content)
  | .conditional inner => evalConditional inner vars (evalSegments inner)

end

end

section

variable (paint : AnsiStyle → Str → Str)

def renderToken (token : CompiledTokenConfig) (prIds : Option Str) : Str :=
  let vars : Vars := [("symbol".toList, token.symbol), ("label".toList, token.label)]
  let vars :=
    match prIds with
    | some ids => vars ++ [("pr_ids".toList, ids)]
    | none => vars
  evalSegments paint vars token.segments

def renderErrorToken (config : CompiledErrorConfig) (message : Str) : Str :=
  let vars : Vars := [("symbol".toList, config.symbol), ("message".toList, message)]
  evalSegments paint vars config.segments

end

end MergeReady.Evaluation
