/-
Names and their ids, one resolver for each table.

The ids of all tables come from one counter. A resolver has a copy of its own: it is set to the
shared one whenever the table's namespace is entered, an assignment moves the copy alone, and
`sync_next_id` brings it back.
-/
import Scharnhorst.Content

set_option autoImplicit false

namespace Scharnhorst

open Std

/-- `ContentError`, the variants that name resolution raises. -/
inductive NameError where
  | NameResolutionFailed (message : String)
  | DuplicateName (name : String)
deriving DecidableEq

abbrev NameResult := Except NameError

/-- `saturating_add(1)` on `u64`. -/
def bump (next_id : Nat) : Nat := min (next_id + 1) (2 ^ 64 - 1)

namespace NameResolver

def new : NameResolver := { name_to_id := ∅, id_to_name := ∅, next_id := 0 }

/-- The next id for a name that has none yet. -/
def assign (r : NameResolver) (name : String) : NameResolver :=
  { name_to_id := r.name_to_id.insert name r.next_id
    id_to_name := r.id_to_name.insert r.next_id name
    next_id := bump r.next_id }

def register (r : NameResolver) (name : String) : NameResult RowId × NameResolver :=
  if r.name_to_id.contains name then (.error (.DuplicateName name), r)
  else (.ok r.next_id, r.assign name)

def resolve (r : NameResolver) (name : String) : NameResult RowId :=
  match r.name_to_id[name]? with
  | some id => .ok id
  | none => .error (.NameResolutionFailed name)

def name_of (r : NameResolver) (id : RowId) : NameResult String :=
  match r.id_to_name[id]? with
  | some name => .ok name
  | none => .error (.NameResolutionFailed s!"{id}")

def resolve_or_assign (r : NameResolver) (name : String) : RowId × NameResolver :=
  match r.name_to_id[name]? with
  | some id => (id, r)
  | none => (r.next_id, r.assign name)

end NameResolver

/-- A call on the resolver of a namespace. -/
inductive NameCall where
  | Register (name : String)
  | ResolveOrAssign (name : String)

namespace NameCall

def name : NameCall → String
  | Register name => name
  | ResolveOrAssign name => name

def run (r : NameResolver) : NameCall → NameResolver
  | Register name => (r.register name).2
  | ResolveOrAssign name => (r.resolve_or_assign name).2

end NameCall

namespace NamespaceResolver

/-- The resolver that `namespace` gives out. -/
def enter (s : NamespaceResolver) (table : String) : NameResolver :=
  { s.tables[table]?.getD .new with next_id := s.next_id }

/-- `namespace`, and calls on what it returns. -/
def in_namespace (s : NamespaceResolver) (table : String) (calls : List NameCall) :
    NamespaceResolver :=
  { s with tables := s.tables.insert table (calls.foldl NameCall.run (s.enter table)) }

def sync_next_id (s : NamespaceResolver) : NamespaceResolver :=
  { s with next_id := ((s.tables.toList.map fun e => e.2.next_id).max?).getD 0 }

def resolve (s : NamespaceResolver) (table name : String) : NameResult RowId :=
  match s.tables[table]? with
  | none => .error (.NameResolutionFailed s!"table: {table}")
  | some r => r.resolve name

def resolve_or_assign (s : NamespaceResolver) (table name : String) : RowId × NamespaceResolver :=
  let (id, resolver) := (s.enter table).resolve_or_assign name
  (id, { tables := s.tables.insert table resolver, next_id := resolver.next_id })

def name_of (s : NamespaceResolver) (table : String) (id : RowId) : NameResult String :=
  match s.tables[table]? with
  | none => .error (.NameResolutionFailed s!"table: {table}")
  | some r => r.name_of id

end NamespaceResolver

/-- What a user of the resolvers may do. -/
inductive NamespaceOp where
  | Namespace (table : String) (calls : List NameCall)
  | SyncNextId
  | ResolveOrAssign (table name : String)

namespace NamespaceOp

/-- The names that an operation is about, each with its table. -/
def named : NamespaceOp → List (String × String)
  | Namespace table calls => calls.map fun call => (table, call.name)
  | SyncNextId => []
  | ResolveOrAssign table name => [(table, name)]

def step (s : NamespaceResolver) : NamespaceOp → NamespaceResolver
  | Namespace table calls => s.in_namespace table calls
  | SyncNextId => s.sync_next_id
  | ResolveOrAssign table name => (s.resolve_or_assign table name).2

/-- Operations on a new resolver, one after the other. -/
def run (ops : List NamespaceOp) : NamespaceResolver := ops.foldl step .new

end NamespaceOp

end Scharnhorst
