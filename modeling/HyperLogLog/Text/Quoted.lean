import HyperLogLog.Text.Visible

/-!
# Quoted literals

`Quoted.encode` writes a text between double quotes, so that it stays on one line and every
character can be seen. Literals come in two styles: `Quoted.Style.value`, `Quoted.Style.note`.
-/

namespace HyperLogLog.Text.Quoted

/-- A code point in lower-case hexadecimal between braces, without leading zeros. -/
def codePoint (c : Char) : String :=
  "\\u\x7b" ++ String.ofList (Nat.toDigits 16 c.toNat) ++ "\x7d"

/-- What a literal escapes besides double quotes, backslashes and what cannot be seen. -/
structure Style where
  /-- Single quotes are escaped. -/
  singleQuotes : Bool
  /-- What attaches to the character before it is escaped wherever it stands. Otherwise that is
  done at the start only, where it would attach to the opening quote. -/
  attachedWithin : Bool

/-- The literal of a value. -/
def Style.value : Style := ⟨false, true⟩

/-- The literal of a note. -/
def Style.note : Style := ⟨true, false⟩

/-- One character of a literal; `first` says that it is at the start. Quotes, backslashes and the
common controls have short forms; what is hidden or attached is written as a code point; everything
else stands for itself. -/
def encodeChar (style : Style) (first : Bool) (c : Char) : String :=
  match c with
  | '"' => "\\\""
  | '\\' => "\\\\"
  | '\n' => "\\n"
  | '\r' => "\\r"
  | '\t' => "\\t"
  | '\x00' => "\\0"
  | '\x27' => if style.singleQuotes then "\\\x27" else "\x27"
  | c =>
    if Visible.isHidden c || ((first || style.attachedWithin) && Visible.isAttached c) then
      codePoint c
    else c.toString

/-- The characters of a literal. -/
def encodeChars (style : Style) : List Char → String
  | [] => ""
  | c :: rest => encodeChar style true c ++ String.join (rest.map (encodeChar style false))

/-- The text as a quoted literal. -/
def encode (style : Style) (s : String) : String :=
  "\"" ++ encodeChars style s.toList ++ "\""

end HyperLogLog.Text.Quoted
