import ModelForm.Quoted.Hidden

/-!
# Quoted text

Text in double quotes, as diagnostics show it. A quote, a backslash and every character that cannot
be shown on its own are escaped; all else stands as it is.
-/

namespace ModelForm

namespace Quoted

/-- A character as it stands between quotes. -/
def escape (c : Char) : List Char :=
  if c = '"' then ['\\', '"']
  else if c = '\\' then ['\\', '\\']
  else if c = '\t' then ['\\', 't']
  else if c = '\n' then ['\\', 'n']
  else if c = '\r' then ['\\', 'r']
  else if c = '\x00' then ['\\', '0']
  else if isHidden c then ['\\', 'u', '\x7b'] ++ Nat.toDigits 16 c.toNat ++ ['\x7d']
  else [c]

end Quoted

def quote (text : String) : String :=
  "\"" ++ String.ofList (text.toList.flatMap Quoted.escape) ++ "\""

end ModelForm
