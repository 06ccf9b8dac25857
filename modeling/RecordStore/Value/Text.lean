import RecordStore.Text.Digit
import RecordStore.Text.Quoted
import RecordStore.Value.Scatter

/-! How a value stands in a message. -/
namespace RecordStore.Value

def dateText (d : Date) : String :=
  let c := d.civil
  s!"datetime.date({c.year}, {c.month}, {c.day})"

/-- Seconds and microseconds are left out from the end while they are zero. -/
def clockText (t : Instant) : String :=
  let c := t.civil
  let shown := [c.year, c.month, c.day, t.hour, t.minute] ++
    (if t.second = 0 ∧ t.microsecond = 0 then [] else [t.second]) ++
    (if t.microsecond = 0 then [] else [t.microsecond])
  Text.commas (shown.map toString)

def offsetText (micros : Int) : String :=
  if micros = 0 then "datetime.timezone.utc"
  else
    let days := Int.fdiv micros microsPerDay
    let seconds := Int.fmod micros microsPerDay / microsPerSecond
    let rest := Int.fmod micros microsPerSecond
    let parts := (if days = 0 then [] else [s!"days={days}"]) ++
      (if seconds = 0 then [] else [s!"seconds={seconds}"]) ++
      (if rest = 0 then [] else [s!"microseconds={rest}"])
    s!"datetime.timezone(datetime.timedelta({Text.commas parts}))"

def datetimeText (t : DateTime) : String :=
  let zone := match t.offset with
    | some micros => s!", tzinfo={offsetText micros}"
    | none => ""
  s!"datetime.datetime({clockText t.wall}{zone})"

def braced (s : String) : String := "\x7b" ++ s ++ "\x7d"

mutual

def text : Value → String
  | null => "None"
  | bool b => if b then "True" else "False"
  | num n => n.text
  | str s => Text.quoted s
  | bytes bs => Text.quotedBytes bs
  | byteArray bs => s!"bytearray({Text.quotedByteArray bs})"
  | date d => dateText d
  | datetime t => datetimeText t
  | list xs => "[" ++ Text.commas (texts xs) ++ "]"
  | tuple xs => match texts xs with
    | [one] => "(" ++ one ++ ",)"
    | all => "(" ++ Text.commas all ++ ")"
  | set xs => match Scatter.arrange xs (texts xs) with
    | [] => "set()"
    | all => braced (Text.commas all)
  | object ms => braced (Text.commas (memberTexts ms))
  | document data => s!"Document({data.text})"
  | missing => "MISSING"

def texts : List Value → List String
  | [] => []
  | x :: xs => x.text :: texts xs

def memberTexts : Record → List String
  | [] => []
  | (k, v) :: ms => (k.writing ++ ": " ++ v.text) :: memberTexts ms

end

mutual

/-- Whether a message can show a value: none of its integers has too many digits for a text. -/
def isWritable : Value → Bool
  | num (.int i) => i.natAbs < Nat.pow 10 Text.numeralLimit
  | list xs | tuple xs | set xs => areWritable xs
  | object ms => membersWritable ms
  | document data => data.isWritable
  | _ => true

def areWritable : List Value → Bool
  | [] => true
  | x :: xs => x.isWritable && areWritable xs

def membersWritable : Record → Bool
  | [] => true
  | (_, v) :: ms => v.isWritable && membersWritable ms

end

/-- How a value reads on its own: texts and times plainly, and others as in a message. -/
def reading : Value → String
  | str s => s
  | date d => String.ofList d.text
  | datetime t => t.text.map fun c => if c = 'T' then ' ' else c
  | v => v.text

def listText (xs : List String) : String :=
  "[" ++ Text.commas (xs.map Text.quoted) ++ "]"

end RecordStore.Value
