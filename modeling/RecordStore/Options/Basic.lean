import RecordStore.Options.Reading

/-! The options of a collection, of reading a request, and of running an aggregate. -/
namespace RecordStore

structure RequestOptions where
  /-- Statistics of other names are passed on as extensions. -/
  allowUnknownStats : Bool := true
  /-- Paths with an empty name are refused. -/
  strictFieldPaths : Bool := true
  /-- Other members of a request are carried along. -/
  allowUnknownKeys : Bool := false
deriving DecidableEq

structure AggregateOptions where
  sort : List String := []
  limit : Option Int := none
  /-- A source that is closed early gives the result of what was read. -/
  allowPartial : Bool := false
deriving DecidableEq

structure CollectionOptions where
  aggregate : RequestOptions := {}
  /-- Upper bound of the limit of a query. -/
  maxQueryLimit : Int := 1000
  /-- Updates without operators replace whole records. -/
  allowFullReplace : Bool := false
deriving DecidableEq

open Options

def RequestOptions.read : Value → Except (List Problem) RequestOptions
  | .object ms =>
    let stats := field ms "allowUnknownStats" ["allow_unknown_stats"] true lenientBool
    let paths := field ms "strictFieldPaths" ["strict_field_paths"] true lenientBool
    let keys := field ms "allowUnknownKeys" ["allow_unknown_keys"] false lenientBool
    let problems := stats.problems ++ paths.problems ++ keys.problems ++
      unknownNames ms (stats.taken ++ paths.taken ++ keys.taken)
    if problems = [] then .ok ⟨stats.value, paths.value, keys.value⟩ else .error problems
  | _ => broken .objectKind

def AggregateOptions.read : Value → Except (List Problem) AggregateOptions
  | .object ms =>
    let sort := field ms "sort" [] [] textList
    let limit := field ms "limit" [] none optionalLimit
    let part := field ms "allowPartial" ["allow_partial"] false lenientBool
    let problems := sort.problems ++ limit.problems ++ part.problems ++
      unknownNames ms (sort.taken ++ limit.taken ++ part.taken)
    if problems = [] then .ok ⟨sort.value, limit.value, part.value⟩ else .error problems
  | _ => broken .objectKind

def CollectionOptions.read : Value → Except (List Problem) CollectionOptions
  | .object ms =>
    let aggregate := field ms "aggregate" [] {} RequestOptions.read
    let limit := field ms "max_query_limit" [] 1000 positiveInt
    let replace := field ms "allow_full_replace" [] false lenientBool
    let problems := aggregate.problems ++ limit.problems ++ replace.problems ++
      unknownNames ms (aggregate.taken ++ limit.taken ++ replace.taken)
    if problems = [] then .ok ⟨aggregate.value, limit.value, replace.value⟩ else .error problems
  | _ => broken .objectKind

end RecordStore
