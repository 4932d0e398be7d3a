import Kiban.Migrations.Tokens

/-!
# The scan of a module migration

`scanMigration` runs a rule table over the statements of one migration file.  A statement is told by
its leading keywords, and what it names is looked for at fixed places after them.  Each method returns
the errors that the source appends to `errs`, in that order.
-/

namespace Kiban.Migrations

/-! ## References -/

section Tokens

variable (ts : List Token)

/-- The unquoted keyword at `i`, or nothing. -/
def kw (i : Nat) : String :=
  match ts[i]? with
  | some t => if t.kind = .ident ∧ ¬ t.quoted then t.text else ""
  | none => ""

def identAt (i : Nat) : Option String :=
  match ts[i]? with
  | some t => if t.kind = .ident then some t.text else none
  | none => none

def punctAt (i : Nat) (p : String) : Bool := ts[i]?.any (·.isPunct p)

def dotted (i : Nat) : Option String :=
  if punctAt ts i "." then identAt ts (i + 1) else none

/-- One `schema.name[.column]` and the token it starts at; an unqualified name has no schema. -/
structure SchemaRef where
  (schema name : String)
  pos : Nat
deriving DecidableEq

def refAt (i : Nat) : SchemaRef × Nat :=
  match identAt ts i with
  | none => (⟨"", "", i⟩, i)
  | some first =>
    match dotted ts (i + 1) with
    | none => (⟨"", first, i⟩, i + 1)
    | some second => (⟨first, second, i⟩, if (dotted ts (i + 3)).isSome then i + 5 else i + 3)

def allRefsWithin (stop : Nat) : Nat → Nat → List SchemaRef
  | 0, _ => []
  | fuel + 1, i =>
    if stop ≤ i then []
    else
      let (r, next) := refAt ts i
      if next = i then allRefsWithin stop fuel (i + 1)
      else (if r.schema ≠ "" then [r] else []) ++ allRefsWithin stop fuel next

/-- The qualified references of `ts[start:stop]`. -/
def allRefs (start stop : Nat) : List SchemaRef := allRefsWithin ts stop (stop - start) start

def tableKeywords : List String := ["into", "update", "from", "join", "using", "only"]

/-- The qualified references of `ts[start:stop]` that directly follow one of the `tableKeywords`. -/
def dmlRefs (start stop : Nat) : List SchemaRef :=
  (List.range' start (stop - start)).flatMap fun i =>
    if kw ts i ∈ tableKeywords then
      let (r, next) := refAt ts (i + 1)
      if i + 1 < next ∧ r.schema ≠ "" then [r] else []
    else []

def firstKw (word : String) (start : Nat) : Option Nat :=
  (List.range' start (ts.length - start)).find? (kw ts · = word)

/-- The place after the run of such keywords that starts at `i`. -/
def skipKeywords (words : List String) (i : Nat) : Nat :=
  i + ((List.range' i (ts.length - i)).takeWhile (kw ts · ∈ words)).length

/-! ## Where a statement names its objects -/

def skipArgumentsWithin : Nat → Nat → Nat → Nat
  | 0, _, i => i
  | fuel + 1, depth, i =>
    if ts.length ≤ i then i
    else if punctAt ts i "(" then skipArgumentsWithin fuel (depth + 1) (i + 1)
    else if punctAt ts i ")" then
      if depth = 1 then i + 1 else skipArgumentsWithin fuel (depth - 1) (i + 1)
    else skipArgumentsWithin fuel depth (i + 1)

/-- The place after the argument list that starts at `i`, if one does. -/
def skipArguments (i : Nat) : Nat :=
  if punctAt ts i "(" then skipArgumentsWithin ts (ts.length - i) 0 i else i

def nameListWithin : Nat → Nat → List String
  | 0, _ => []
  | fuel + 1, i =>
    match identAt ts i with
    | none => []
    | some name => name :: if punctAt ts (i + 1) "," then nameListWithin fuel (i + 2) else []

def nameList (i : Nat) : List String := nameListWithin ts (ts.length - i) i

def createModifiers : List String :=
  ["or", "replace", "unique", "materialized", "temp", "temporary", "unlogged", "constraint", "global",
    "local"]

structure CreateHead where
  kindAt : Nat
  ifNotExists : Bool
  name : Nat

/-- The leading keywords of a `CREATE`: where its kind stands, and where the name does. -/
def createHead : CreateHead :=
  let kindAt := skipKeywords ts createModifiers 1
  let i := if kw ts (kindAt + 1) = "concurrently" then kindAt + 2 else kindAt + 1
  let ifNotExists : Bool := kw ts i = "if" ∧ kw ts (i + 1) = "not" ∧ kw ts (i + 2) = "exists"
  { kindAt, ifNotExists, name := if ifNotExists then i + 3 else i }

/-- Where the query of a `CREATE VIEW` or `CREATE TABLE` starts for the scan: at its first `AS`. -/
def queryAt (kind : String) (next : Nat) : Nat :=
  if kind = "view" ∨ kind = "table" then (firstKw ts "as" next).getD ts.length else ts.length

/-- The place after the first `ON`, for the kinds that name their table there. -/
def afterOn (start i : Nat) : Nat := ((firstKw ts "on" start).map (· + 1)).getD i

def alterKindAt : Nat := if kw ts 1 = "materialized" then 2 else 1

def alterName : Nat := skipKeywords ts ["if", "exists", "only"] (alterKindAt ts + 1)

def alterTarget (kind : String) : Nat :=
  if kind = "trigger" ∨ kind = "policy" then afterOn ts (refAt ts (alterName ts)).2 (alterName ts)
  else alterName ts

def dropName : Nat :=
  let i := if kw ts 2 = "concurrently" then 3 else 2
  if kw ts i = "if" ∧ kw ts (i + 1) = "exists" then i + 2 else i

def dropList (kind : String) : Nat :=
  if kind = "trigger" ∨ kind = "policy" then afterOn ts (dropName ts) (dropName ts) else dropName ts

def commentList (kind : String) : Nat :=
  if kind = "trigger" ∨ kind = "policy" ∨ kind = "constraint" then afterOn ts 3 3 else 3

def truncateList : Nat := skipKeywords ts ["table", "only"] 1

/-- Where the schema list of `ALL TABLES|SEQUENCES|FUNCTIONS|ROUTINES IN SCHEMA name` starts. -/
def allInSchema (i : Nat) : Nat := (firstKw ts "schema" i).getD ts.length + 1

def grantedKinds : List String := ["table", "sequence", "function", "procedure", "routine"]

def ungrantedKinds : List String :=
  ["database", "tablespace", "language", "foreign", "large", "type", "domain", "parameter"]

/-! ## The rule table -/

inductive Rule where
  | migrationCrossSchema
  | migrationUnsafeStatement
deriving DecidableEq

structure ValidationError where
  moduleKey : String
  rule : Rule
  message : String
deriving DecidableEq

structure MigrationFile where
  name : String
  contents : List Char
  checksum : String

structure SqlScan where
  (moduleKey file : String)
  grandfathered : Bool

def grandfatheredMigrations : List (String × String) :=
  [("d6f7ea747260278ff115ac1d7597de8ef80bbccd3f40c7d6fb8cd9f48c883207",
      "modules/notification/migrations/0003_audit.sql"),
    ("dc4c983ab0fdfa989fc6bb5e11b0d841620260538123ce5c575227658298358e",
      "modules/timesheet/migrations/0003_audit.sql"),
    ("4fac26da34ae6af10d01b439e86cc0c54e84e4f2eaa4f66254f5dc6d2ed09241",
      "modules/docs/migrations/0003_audit.sql"),
    ("0aac013ce237b0395cf5680db60af67904a53837a45d37b3cc68a70af169d862",
      "modules/helpdesk/migrations/0003_audit.sql")]

def sharedAuditFunction : String := "reject_mutation"

def allowedExtensions : List String := ["pgcrypto"]

/-- What `CREATE`, `ALTER`, `DROP` and `COMMENT ON` all take. -/
def objectKinds : List String :=
  ["table", "index", "function", "procedure", "trigger", "type", "sequence", "view", "policy", "domain"]

def createKinds : List String := "schema" :: "extension" :: objectKinds

def alterKinds : List String := objectKinds

def dropKinds : List String := "schema" :: objectKinds

def commentKinds : List String := "column" :: "constraint" :: objectKinds

/-- The kinds whose name is scoped by a schema; that of an index, trigger or policy is by its table. -/
def schemaScopedKinds : List String :=
  ["table", "function", "procedure", "type", "sequence", "view", "domain"]

/-- `%v` of a list of strings. -/
def showList (xs : List String) : String := "[" ++ " ".intercalate xs ++ "]"

/-- The first tokens of a statement, for an error message. -/
def describe : String := " ".intercalate ((ts.take 3).map Token.text)

def GoText.upper (go : GoText) (s : String) : String := .ofList (go.toUpper s.toList)

end Tokens

namespace SqlScan

variable (go : GoText) (s : SqlScan) (ts : List Token)

def fail (rule : Rule) (message : String) : List ValidationError :=
  [⟨s.moduleKey, rule, "migrations/" ++ s.file ++ ": " ++ message⟩]

/-- The schema fence; a `target` is created, altered, dropped, granted on or written by the statement,
and not merely referenced. -/
def checkRef (r : SchemaRef) (target : Bool) : List ValidationError :=
  if r.schema = s.moduleKey then []
  else if r.schema = "audit" ∧ (s.moduleKey ++ "__").toList.isPrefixOf r.name.toList then []
  else if r.schema = "audit" ∧ r.name = sharedAuditFunction then
    if ¬ target ∨ s.grandfathered then []
    else s.fail .migrationCrossSchema
      ("audit." ++ r.name ++ " is a shared platform function — a module migration may reference it but " ++
        "never replace, alter or drop it (grandfathered only for the shipped " ++
        showList ((grandfatheredMigrations.map Prod.snd).mergeSort) ++ ")")
  else if r.schema = "public" ∧ r.name = "schema_version_" ++ s.moduleKey then []
  else s.fail .migrationCrossSchema
    (r.schema ++ "." ++ r.name ++ ": a module migration may only touch its own schema " ++
      go.quote s.moduleKey ++ ", audit." ++ s.moduleKey ++ "__* objects, or public.schema_version_" ++
      s.moduleKey)

/-- The clauses that change who a definition runs as or what it resolves. -/
def forbidAnywhere : List ValidationError :=
  (List.range ts.length).flatMap fun j =>
    if kw ts j = "security" ∧ kw ts (j + 1) = "definer" then
      s.fail .migrationUnsafeStatement "SECURITY DEFINER is not allowed in a module migration"
    else if kw ts j = "search_path" then
      s.fail .migrationUnsafeStatement "search_path may not be set by a module migration"
    else []

def targetListWithin : Nat → Nat → List SchemaRef × List ValidationError
  | 0, _ => ([], [])
  | fuel + 1, i =>
    let (r, next) := refAt ts i
    if next = i then ([], [])
    else
      let stop := skipArguments ts next
      let (refs, errs) := if punctAt ts stop "," then targetListWithin fuel (stop + 1) else ([], [])
      if r.schema = "" then
        (refs, s.fail .migrationCrossSchema
          (r.name ++ ": object names must be schema-qualified in a module migration") ++ errs)
      else (r :: refs, errs)

/-- The names of the list `ref[, ref...]` at `i`; an unqualified one is an error. -/
def targetList (i : Nat) : List SchemaRef × List ValidationError :=
  s.targetListWithin ts (ts.length - i) i

def checkTargets (i : Nat) : List ValidationError :=
  (s.targetList ts i).2 ++ (s.targetList ts i).1.flatMap fun r => s.checkRef go r true

/-! ### CREATE -/

def createSchema (i : Nat) (ifNotExists : Bool) : List ValidationError :=
  (if kw ts i ≠ s.moduleKey ∧ ¬ (kw ts i = "audit" ∧ ifNotExists) then
    s.fail .migrationCrossSchema
      ("CREATE SCHEMA " ++ kw ts i ++ ": a module migration may only create its own schema " ++
        go.quote s.moduleKey ++ " (or idempotently the shared audit schema)")
  else []) ++
  (if kw ts (i + 1) = "authorization" ∧ kw ts (i + 2) ≠ "kiban" then
    s.fail .migrationUnsafeStatement ("CREATE SCHEMA " ++ kw ts i ++ " AUTHORIZATION " ++ kw ts (i + 2) ++
        ": schemas are owned by the migration owner role kiban")
  else [])

def createExtension (i : Nat) : List ValidationError :=
  if kw ts i ∉ allowedExtensions ∨ i + 1 ≠ ts.length then
    s.fail .migrationUnsafeStatement
      ("CREATE EXTENSION " ++ describe (ts.drop i) ++ ": only `CREATE EXTENSION [IF NOT EXISTS] " ++
        showList allowedExtensions.mergeSort ++ "` (no WITH SCHEMA/VERSION clause) is allowed")
  else []

def checkOnTable (kind name : String) (next : Nat) : List ValidationError :=
  match firstKw ts "on" next with
  | none => []
  | some on =>
    let (r, after) := refAt ts (on + 1)
    if after ≤ on + 1 then []
    else if r.schema = "" ∧ (kind = "index" ∨ kind = "trigger" ∨ kind = "policy") then
      s.fail .migrationCrossSchema ("CREATE " ++ go.upper kind ++ " " ++ name ++ " ON " ++ r.name ++
          ": the table must be schema-qualified")
    else if r.schema ≠ "" then s.checkRef go r true
    else []

def createObject (kind : String) (i : Nat) : List ValidationError :=
  let (target, next) := refAt ts i
  let query := queryAt ts kind next
  s.forbidAnywhere ts ++
  (if kind ∈ schemaScopedKinds ∧ target.schema = "" then
    s.fail .migrationCrossSchema
      ("CREATE " ++ go.upper kind ++ " " ++ target.name ++ ": the name must be schema-qualified (" ++
        s.moduleKey ++ "." ++ target.name ++ ") — an unqualified name lands on search_path")
  else []) ++
  (if target.schema ≠ "" then s.checkRef go target true else []) ++
  s.checkOnTable go ts kind target.name next ++
  ((dmlRefs ts query ts.length).flatMap fun r => s.checkRef go r false) ++
  ((allRefs ts next query).flatMap fun r => s.checkRef go r false)

def create : List ValidationError :=
  let head := createHead ts
  let kind := kw ts head.kindAt
  if kind ∉ createKinds then
    s.fail .migrationUnsafeStatement
      ("CREATE " ++ go.upper (describe (ts.drop head.kindAt)) ++ " is not allowed in a module migration")
  else if kind = "schema" then s.createSchema go ts head.name head.ifNotExists
  else if kind = "extension" then s.createExtension ts head.name
  else s.createObject go ts kind head.name

/-! ### ALTER, DROP and COMMENT -/

def alterClauses (i : Nat) : List ValidationError :=
  (List.range' i (ts.length - 1 - i)).flatMap fun j =>
    if kw ts j = "owner" ∧ kw ts (j + 1) = "to" then
      s.fail .migrationUnsafeStatement
        "ALTER ... OWNER TO: a module migration may not change object ownership"
    else if kw ts j = "set" ∧ kw ts (j + 1) = "schema" then
      s.fail .migrationUnsafeStatement
        "ALTER ... SET SCHEMA: a module migration may not move objects between schemas"
    else []

def alter : List ValidationError :=
  let kind := kw ts (alterKindAt ts)
  if kind ∉ alterKinds then
    s.fail .migrationUnsafeStatement ("ALTER " ++ go.upper (describe (ts.drop (alterKindAt ts))) ++
        " is not allowed in a module migration")
  else
    let (target, next) := refAt ts (alterTarget ts kind)
    s.forbidAnywhere ts ++ s.alterClauses ts (alterName ts) ++
    (if target.schema = "" then
      s.fail .migrationCrossSchema
        ("ALTER " ++ go.upper kind ++ " " ++ target.name ++ ": the name must be schema-qualified")
    else s.checkRef go target true) ++
    ((allRefs ts next ts.length).flatMap fun r => s.checkRef go r false)

def drop : List ValidationError :=
  let kind := kw ts 1
  if kind ∉ dropKinds then
    s.fail .migrationUnsafeStatement
      ("DROP " ++ go.upper (describe (ts.drop 1)) ++ " is not allowed in a module migration")
  else if kind = "schema" then
    if kw ts (dropName ts) ≠ s.moduleKey then
      s.fail .migrationCrossSchema
        ("DROP SCHEMA " ++ kw ts (dropName ts) ++ ": a module migration may only drop its own schema " ++
          go.quote s.moduleKey)
    else []
  else s.checkTargets go ts (dropList ts kind)

/-- On a statement of the one word `COMMENT` the slice `ts[2:]` of the error message panics. -/
def comment : Option (List ValidationError) :=
  let kind := kw ts 2
  if kw ts 1 ≠ "on" ∨ kind ∉ commentKinds then
    if ts.length < 2 then none
    else some (s.fail .migrationUnsafeStatement
      ("COMMENT ON " ++ go.upper (describe (ts.drop 2)) ++ " is not allowed in a module migration"))
  else some (s.checkTargets go ts (commentList ts kind))

/-! ### GRANT and REVOKE -/

/-- What the statement grants on, after its `ON`. -/
def grantObjects (verb : String) (i : Nat) : List ValidationError :=
  if kw ts i = "schema" then
    (nameList ts (i + 1)).flatMap fun r =>
      if r ≠ s.moduleKey ∧ r ≠ "audit" then
        s.fail .migrationCrossSchema
          (verb ++ " ... ON SCHEMA " ++ r ++ ": a module migration may only grant on its own schema " ++
            go.quote s.moduleKey ++ " or the shared audit schema")
      else []
  else if kw ts i = "all" then
    (nameList ts (allInSchema ts i)).flatMap fun r =>
      if r ≠ s.moduleKey then
        s.fail .migrationCrossSchema (verb ++ " ... ON ALL ... IN SCHEMA " ++ r ++
            ": a module migration may only grant on its own schema " ++ go.quote s.moduleKey)
      else []
  else if kw ts i ∈ grantedKinds then s.checkTargets go ts (i + 1)
  else if kw ts i ∈ ungrantedKinds then
    s.fail .migrationUnsafeStatement
      (verb ++ " ... ON " ++ go.upper (kw ts i) ++ " is not allowed in a module migration")
  else s.checkTargets go ts i

/-- The roles after the first `TO`, or `FROM` of a `REVOKE`. -/
def grantRoles (verb : String) (on : Nat) : List ValidationError :=
  let roleKw := if verb = "REVOKE" then "from" else "to"
  let want := "kiban_" ++ s.moduleKey
  match firstKw ts roleKw on with
  | none => []
  | some j =>
    (nameList ts (j + 1)).flatMap fun r =>
      if r ≠ want then
        s.fail .migrationUnsafeStatement (verb ++ " ... " ++ go.upper roleKw ++ " " ++ r ++
            ": a module migration may only grant to / revoke from its own runtime role " ++
            go.quote want)
      else []

def grant : List ValidationError :=
  let verb := go.upper (kw ts 0)
  match firstKw ts "on" 0 with
  | none =>
    s.fail .migrationUnsafeStatement
      (verb ++ " without ON: role membership grants are not allowed in a module migration")
  | some on =>
    ((List.range ts.length).flatMap fun j =>
      if kw ts j = "grant" ∧ kw ts (j + 1) = "option" then
        s.fail .migrationUnsafeStatement (verb ++ " ... GRANT OPTION is not allowed in a module migration")
      else []) ++
    s.grantObjects go ts verb (on + 1) ++ s.grantRoles go ts verb on

/-! ### The scan -/

def truncate : List ValidationError :=
  (s.targetList ts (truncateList ts)).2 ++
  (s.targetList ts (truncateList ts)).1.flatMap fun r =>
    if r.schema ≠ s.moduleKey then
      s.fail .migrationUnsafeStatement ("TRUNCATE " ++ r.schema ++ "." ++ r.name ++
          ": a module migration may only truncate tables in its own schema " ++ go.quote s.moduleKey ++
          " (audit tables are append-only)")
    else []

def statement : Option (List ValidationError) :=
  match kw ts 0 with
  | "create" => some (s.create go ts)
  | "alter" => some (s.alter go ts)
  | "drop" => some (s.drop go ts)
  | "grant" | "revoke" => some (s.grant go ts)
  | "truncate" => some (s.truncate go ts)
  | "insert" | "update" | "delete" | "with" =>
    some ((dmlRefs ts 0 ts.length).flatMap fun r => s.checkRef go r true)
  | "comment" => s.comment go ts
  | _ => some (s.fail .migrationUnsafeStatement
      ("statement " ++ go.quote (go.upper (describe ts)) ++ " is not allowed in a module migration " ++
        "(allowed: CREATE/ALTER/DROP of schema-scoped objects, GRANT/REVOKE to the module role, " ++
        "INSERT/UPDATE/DELETE/TRUNCATE on own tables, COMMENT ON)"))

def statements : List (List Token) → Option (List ValidationError)
  | [] => some []
  | ts :: rest => do
    let errs ← s.statement go ts
    let more ← statements rest
    return errs ++ more

end SqlScan

def MigrationFile.statements (go : GoText) (mf : MigrationFile) : List (List Token) :=
  splitStatements (tokenize go mf.contents)

def MigrationFile.scope (moduleKey : String) (mf : MigrationFile) : SqlScan where
  moduleKey := moduleKey
  file := mf.name
  grandfathered := (grandfatheredMigrations.lookup mf.checksum).isSome

/-- The errors of one migration file, or nothing when the scan panics. -/
def scanMigration (go : GoText) (moduleKey : String) (mf : MigrationFile) : Option (List ValidationError) :=
  (mf.scope moduleKey).statements go (mf.statements go)

def migration (lines : List String) : MigrationFile :=
  { name := "0001_widget.sql", contents := lines.flatMap fun l => l.toList ++ ['\n'], checksum := "" }

end Kiban.Migrations
