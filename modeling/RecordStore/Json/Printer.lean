import RecordStore.Text.Quoted
import RecordStore.Value.Basic

/-! Writing values as JSON texts, with a blank after each comma and colon. What JSON has no form for
is written as null. -/
namespace RecordStore.Json

def escapeChar (c : Char) : List Char :=
  match c with
  | '"' => ['\\', '"']
  | '\\' => ['\\', '\\']
  | '\x08' => ['\\', 'b']
  | '\x0c' => ['\\', 'f']
  | '\n' => ['\\', 'n']
  | '\r' => ['\\', 'r']
  | '\t' => ['\\', 't']
  | _ => if c.toNat < 0x20 then '\\' :: 'u' :: Text.hex 4 c.toNat else [c]

def string (s : String) : String :=
  String.ofList ('"' :: s.toList.flatMap escapeChar ++ ['"'])

def number : Num → String
  | .int i => toString i
  | .float x => Decimal.render ⟨-4, 16, 2, "Infinity", "NaN"⟩ x

mutual

def render : Value → String
  | .bool b => if b then "true" else "false"
  | .num n => number n
  | .str s => string s
  | .list xs => "[" ++ Text.commas (renderAll xs) ++ "]"
  | .object ms => "\x7b" ++ Text.commas (renderMembers ms) ++ "\x7d"
  | _ => "null"

def renderAll : List Value → List String
  | [] => []
  | x :: xs => render x :: renderAll xs

def renderMembers : Record → List String
  | [] => []
  | (k, v) :: ms => (string k.reading ++ ": " ++ render v) :: renderMembers ms

end

end RecordStore.Json
