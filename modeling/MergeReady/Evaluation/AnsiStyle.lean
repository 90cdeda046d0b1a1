import MergeReady.Evaluation.StyleSpec

/-!
# Styles of the terminal

`StyleSpec.toAnsiStyle` builds a style of the terminal package, a record of what is set in it, from
a style string that was read.  What a style paints around a text is the package's business.
-/

namespace MergeReady.Evaluation

/-- `nu_ansi_term::Color` -/
inductive AnsiColor
  | black | darkGray | red | lightRed | green | lightGreen | yellow | lightYellow
  | blue | lightBlue | purple | lightPurple | cyan | lightCyan | white | lightGray
  | fixed (n : UInt8)
  | rgb (r g b : UInt8)
deriving DecidableEq, Repr

/-- `nu_ansi_term::Style` -/
structure AnsiStyle where
  foreground : Option AnsiColor
  background : Option AnsiColor
  isBold : Bool
  isDimmed : Bool
  isItalic : Bool
  isUnderline : Bool
  isBlink : Bool
  isReverse : Bool
  isHidden : Bool
  isStrikethrough : Bool
deriving DecidableEq, Repr

/-- The plain style, `Style::new`. -/
def AnsiStyle.new : AnsiStyle where
  foreground := none
  background := none
  isBold := false
  isDimmed := false
  isItalic := false
  isUnderline := false
  isBlink := false
  isReverse := false
  isHidden := false
  isStrikethrough := false

def namedColorToNu : NamedColor → AnsiColor
  | .black => .black
  | .red => .red
  | .green => .green
  | .yellow => .yellow
  | .blue => .blue
  | .purple => .purple
  | .cyan => .cyan
  | .white => .white
  | .brightBlack => .darkGray
  | .brightRed => .lightRed
  | .brightGreen => .lightGreen
  | .brightYellow => .lightYellow
  | .brightBlue => .lightBlue
  | .brightPurple => .lightPurple
  | .brightCyan => .lightCyan
  | .brightWhite => .lightGray

def colorSpecToNu : ColorSpec → AnsiColor
  | .named n => namedColorToNu n
  | .ansi256 n => .fixed n
  | .rgb r g b => .rgb r g b

namespace StyleModifiers

def contains (modifiers other : StyleModifiers) : Bool :=
  modifiers.bits &&& other.bits == other.bits

def applyTo (modifiers : StyleModifiers) (style : AnsiStyle) : AnsiStyle :=
  let style := if modifiers.contains bold then { style with isBold := true } else style
  let style := if modifiers.contains italic then { style with isItalic := true } else style
  let style := if modifiers.contains underline then { style with isUnderline := true } else style
  let style := if modifiers.contains dimmed then { style with isDimmed := true } else style
  let style := if modifiers.contains inverted then { style with isReverse := true } else style
  let style := if modifiers.contains blink then { style with isBlink := true } else style
  let style := if modifiers.contains hidden then { style with isHidden := true } else style
  if modifiers.contains strikethrough then { style with isStrikethrough := true } else style

end StyleModifiers

def StyleSpec.toAnsiStyle : StyleSpec → AnsiStyle
  | .none => AnsiStyle.new
  | .styled fg bg modifiers =>
    let style := AnsiStyle.new
    let style :=
      match fg with
      | some fg => { style with foreground := some (colorSpecToNu fg) }
      | .none => style
    let style :=
      match bg with
      | some bg => { style with background := some (colorSpecToNu bg) }
      | .none => style
    modifiers.applyTo style

end MergeReady.Evaluation
