import RecordStore.Fault
import RecordStore.Json.Reader
import RecordStore.Options.Basic

/-! Options of collections as a settings file gives them, by the names of the collections. -/
namespace RecordStore

abbrev Settings := List (String × CollectionOptions)

namespace Settings

/-- Reads the text of a settings file; without a file there are none. -/
def read : Option String → Except Failure Settings
  | none => .ok []
  | some text => match Json.read text with
    | .error f => .error (.json f)
    | .ok (.object ms) => (Record.entries ms).mapM fun (name, v) =>
      match CollectionOptions.read v with
      | .ok options => .ok (name, options)
      | .error problems => .error (.options problems)
    | .ok _ => .error .lacksOperation

def names (s : Settings) : List String := s.map Prod.fst

/-- The options of a collection; the usual ones if it has no entry. -/
def optionsFor (name : String) (s : Settings) : CollectionOptions :=
  match s.find? fun (n, _) => n = name with
  | some (_, options) => options
  | none => {}

end Settings

end RecordStore
