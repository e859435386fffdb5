import Venturi.Postgres.Names
import Venturi.Sql.Progress

namespace Venturi

open Sql Trace

/-!
# Applying the schema (`postgres/mod.rs`, `postgres/migrations.rs`)

* `Statement` / `Schema` — what `migrate` executes, and the part of the database it changes.
* `PgMigrationClient.execute`, `PgMigrationClient.query` — the bridge between the migration
  runner and a session.
* `Refinery` — the runner, a parameter; `Conforms` is what it documents.
* `PostgresStore.migrate` — under the advisory lock of the prefix, `apply`.
-/

/-! ### The database -/

/-- A row of the migration-history table. -/
structure HistoryRow where
  version : Int
  name : String
  /-- RFC 3339 text. -/
  appliedOn : String
  /-- Decimal text of a `u64`. -/
  checksum : String
  deriving DecidableEq, Repr

/-- The statements a migration sends. -/
inductive Statement where
  /-- Create the history table if it does not exist. -/
  | createHistory (table : String)
  | selectHistory (table : String)
  | insertHistory (table : String) (row : HistoryRow)
  | batch (body : List Ddl)
  deriving DecidableEq, Repr

/-- Apply a statement of a migration to the relations there are. -/
def Ddl.run : Ddl → List String → Option (List String)
  | .createTable name references, relations =>
      if name ∈ relations ∨ ∃ r ∈ references, r ∉ relations then none
      else some (name :: relations)
  | .createIndex name on, relations =>
      if name ∈ relations ∨ on ∉ relations then none else some (name :: relations)
  | .dropIndex name, relations =>
      if name ∈ relations then some (relations.filter (· ≠ name)) else none

/-- Apply the statements one after the other. -/
def runDdl : List Ddl → List String → Option (List String)
  | [], relations => some relations
  | d :: body, relations => (d.run relations).bind (runDdl body)

/-- The tables and indexes there are, and the rows of each migration-history table that
    exists, in the order of their versions. -/
structure Schema where
  relations : List String
  history : String → Option (List HistoryRow)

/-- What a statement answers and does; `none` where PostgreSQL rejects it. -/
def Statement.run : Statement → Schema → Option (List HistoryRow × Schema)
  | .createHistory table, s =>
      match s.history table with
      | none => some ([], { s with history := Function.update s.history table (some []) })
      | some _ => some ([], s)
  | .selectHistory table, s => (s.history table).map fun rows => (rows, s)
  | .insertHistory table row, s =>
      (s.history table).map fun rows =>
        ([], { s with history := Function.update s.history table (some (rows ++ [row])) })
  | .batch body, s => (runDdl body s.relations).map fun relations => ([], { s with relations })

def postgres : Semantics Schema Statement (List HistoryRow) := ⟨Statement.run, []⟩

/-! ### Advisory-lock keys -/

def fnvOffset : UInt64 := 0xcbf29ce484222325

def fnvPrime : UInt64 := 0x00000100000001b3

/-- One byte of the hash. -/
def fnvByte (hash : UInt64) (byte : UInt8) : UInt64 := (hash ^^^ byte.toUInt64) * fnvPrime

/-- `advisory_lock_id`: FNV-1a, its bits read as a signed number. -/
def advisoryLockId (tablePrefix : String) : Int64 :=
  (tablePrefix.toUTF8.data.toList.foldl fnvByte fnvOffset).toInt64

/-! ### The runner and its bridge -/

/-- refinery's `Migration`, unapplied with its body or applied with its time. -/
structure Migration (Instant : Type) where
  version : Int
  name : String
  checksum : Nat
  sql : Option (List Ddl)
  appliedOn : Option Instant

/-- An error of the driver, with its text. -/
abbrev PgError : Type := String

inductive MigrationBridgeError where
  | driver (e : PgError)
  | malformedHistory (field : String) (value : String)
  deriving DecidableEq, Repr

/-- What the runner asks of the bridge. -/
inductive Bridge where
  | execute (queries : List Statement)
  | query (q : Statement)

abbrev Bridge.Answer (Instant : Type) : Bridge → Type
  | .execute _ => Except MigrationBridgeError Nat
  | .query _ => Except MigrationBridgeError (List (Migration Instant))

/-- What the adapter takes from the crates `refinery` and `time`. -/
structure Refinery where
  /-- `OffsetDateTime`. -/
  Instant : Type
  /-- `OffsetDateTime::parse` of RFC 3339 text. -/
  parse : String → Option Instant
  /-- `Migration::unapplied`. -/
  unapplied : String → List Ddl → Except String (Migration Instant)
  /-- `Runner::run_async` over the migrations, with the history table it was given. -/
  runAsync : List (Migration Instant) → String →
    Program (Bridge.Answer Instant) (Except String Unit)

/-- Code over the session `migrate` took from the pool. -/
abbrev SessionCode (α : Type) : Type := ClientCode Int64 Statement PgError (List HistoryRow) α

namespace SessionCode

/-- Send a request and await its answer. -/
def request (r : Request Int64 Statement) : SessionCode (Except PgError (List HistoryRow)) :=
  Program.perform (Operation.request r)

/-- Drop the open transaction. -/
def abandon : SessionCode Unit := Program.perform Operation.abandon

end SessionCode

/-- The digits of a number, after the sign it may have. -/
def unsigned : List Char → List Char
  | '+' :: cs => cs
  | cs => cs

/-- `str::parse::<u64>`. -/
def parseU64 (text : String) : Option Nat :=
  let digits := unsigned text.toList
  if digits ≠ [] ∧ digits.all Char.isDigit ∧ Nat.ofDigitChars 10 digits 0 < 2 ^ 64 then
    some (Nat.ofDigitChars 10 digits 0)
  else none

namespace PgMigrationClient

/-- The statements of `execute` after the first `count`, and the commit. -/
def executeFrom : List Statement → Nat → SessionCode (Except MigrationBridgeError Nat)
  | [], count => do
      match ← SessionCode.request .commit with
      | .error e => return .error (.driver e)
      | .ok _ => return .ok count
  | q :: queries, count => do
      match ← SessionCode.request (.exec q) with
      | .error e => do
          SessionCode.abandon
          return .error (.driver e)
      | .ok _ => executeFrom queries (count + 1)

/-- `AsyncTransaction::execute`. -/
def execute (queries : List Statement) : SessionCode (Except MigrationBridgeError Nat) := do
  match ← SessionCode.request .begin with
  | .error e => return .error (.driver e)
  | .ok _ => executeFrom queries 0

/-- A row of the history, as `query` reads it. -/
def readRow (R : Refinery) (row : HistoryRow) :
    Except MigrationBridgeError (Migration R.Instant) := do
  let appliedOn ← match R.parse row.appliedOn with
    | some t => .ok t
    | none => .error (.malformedHistory "applied_on" row.appliedOn)
  let checksum ← match parseU64 row.checksum with
    | some n => .ok n
    | none => .error (.malformedHistory "checksum" row.checksum)
  return { row with checksum, sql := none, appliedOn := some appliedOn }

/-- `AsyncQuery::query`. -/
def query (R : Refinery) (q : Statement) :
    SessionCode (Except MigrationBridgeError (List (Migration R.Instant))) := do
  match ← SessionCode.request .begin with
  | .error e => return .error (.driver e)
  | .ok _ =>
      match ← SessionCode.request (.exec q) with
      | .error e => do
          SessionCode.abandon
          return .error (.driver e)
      | .ok rows =>
          match ← SessionCode.request .commit with
          | .error e => return .error (.driver e)
          | .ok _ => return rows.mapM (readRow R)

/-- The bridge. -/
def answer (R : Refinery) : (o : Bridge) → SessionCode (o.Answer R.Instant)
  | .execute queries => execute queries
  | .query q => query R q

end PgMigrationClient

/-- `MIGRATIONS` as the runner takes them, with the prefix substituted into each body. -/
def Refinery.migrations (R : Refinery) (tablePrefix : String) :
    Except String (List (Migration R.Instant)) :=
  (Venturi.unapplied tablePrefix).mapM fun m => R.unapplied m.1 m.2

/-- `apply`. -/
def apply (R : Refinery) (tablePrefix : String) : SessionCode (Except String Unit) :=
  match R.migrations tablePrefix with
  | .error e => .ret (.error e)
  | .ok migrations =>
      (R.runAsync migrations (historyTable tablePrefix)).handle (PgMigrationClient.answer R)

/-- The errors of `migrate` once it has a connection. -/
inductive MigrateError where
  /-- `Error::Database`. -/
  | database (e : PgError)
  /-- `Error::Migration`. -/
  | migration (e : String)
  deriving DecidableEq, Repr

/-- `PostgresStore::migrate`, on the session the pool handed out. -/
def PostgresStore.migrate (R : Refinery) (tablePrefix : String) :
    SessionCode (Except MigrateError Unit) := do
  match ← SessionCode.request (.lock (advisoryLockId tablePrefix)) with
  | .error e => return .error (.database e)
  | .ok _ =>
      let result ← apply R tablePrefix
      -- an unlock that fails is logged
      let _ ← SessionCode.request (.unlock (advisoryLockId tablePrefix))
      return result.mapError .migration

end Venturi
