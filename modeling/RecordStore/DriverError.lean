import RecordStore.Value.Equality

/-! Errors of the driver of a database. They are told apart by their names and their code. -/
namespace RecordStore

inductive DriverError where
  | cancelled
  /-- An error with the names of its type and of those that it extends, and a code if it has one. -/
  | reported (types : List String) (code : Option Value)

namespace DriverError

def name : DriverError → String
  | cancelled => ""
  | reported types _ => types.headD "Exception"

def duplicateCode : Value := .int 11000

/-- A key was there already: the error is named for it or has its code. -/
def isDuplicate : DriverError → Bool
  | cancelled => false
  | reported types code =>
    types.head? = some "DuplicateKeyError" || code.any fun c => c.eq duplicateCode

def connectionNames : List String :=
  ["ConnectionFailure", "ServerSelectionTimeoutError", "AutoReconnect", "NetworkTimeout"]

/-- The server cannot be reached: any name says so. -/
def isConnection : DriverError → Bool
  | cancelled => false
  | reported types _ => types.any (· ∈ connectionNames)

end DriverError

end RecordStore
