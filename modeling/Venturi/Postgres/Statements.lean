import Venturi.Postgres.Pages
import Venturi.Postgres.Refine
import Venturi.Postgres.Rows

namespace Venturi

open Sql PostgresStore

/-!
# The statements of the adapter (`postgres/mod.rs`)

Every call but `stats` as the SQL it sends, with the parameters it binds, over tables of rows.  The
`pg_notify` that `enqueue` and `settle` send in their transaction changes no row and is left out.

* `enqueueInsert`, `claimUpdate`, `Settlement.update`, … — the fixed statements.
* `HistoryFilter.statement`, `CleanupCriteria.statement` — the two built at run time: each field
  that is set pushes its value and a clause with the placeholder of that value.
* `Tables.exec` — a call against the tables: run its statements, read the rows back.
-/

variable {Col : Type}

/-- A literal. -/
@[simp] def lit (c : Cell) : Term Col Cell := .lit (some c)

/-- `column = value`. -/
@[simp] def is (c : Col) (t : Term Col Cell) : Cond Col Cell := .cmp .eq (.col c) t

/-- `SET column = value`. -/
def put (c : Col) (t : Term Col Cell) : Col × Expr Col Cell := (c, .term t)

@[simp] def Status.lit (status : Status) : Term Col Cell := Venturi.lit (.text status.asStr)

/-- A parameter. -/
@[simp] def bound (c : Cell) : Param Cell := .scalar (some c)

/-! ### The fixed statements -/

def enqueueInsert : InsertInto JobColumn Cell where
  values := [put .id (.param 1), put .kind (.param 2), put .payload (.param 3),
    put .priority (.param 4), put .status Status.pending.lit, put .createdAt (.param 5),
    put .visibleAt (.param 6), put .runCount (lit (.int 0)), put .failureCount (lit (.int 0)),
    put .carry (.param 7), put .dedupKey (.param 8)]

/-- What it binds. -/
def NewJob.params (T : UlidText) (job : NewJob) : List (Param Cell) :=
  [bound (.text (T.toString job.id)), bound (.text job.kind), bound (.json job.payload),
    bound (.int job.priority), bound (.time job.createdAt), bound (.time job.visibleAt),
    bound (.json job.carry), .scalar (job.dedupKey.map .text)]

/-- The row the claim is about. -/
def claimSelect : Select JobColumn Cell where
  columns := [.id]
  conds := [is .status Status.pending.lit, .cmp .le (.col .visibleAt) .now,
    .any (.col .kind) 3, .cmp .ge (.col .priority) (.param 4)]
  order := [(.priority, .asc), (.createdAt, .asc)]
  limit := some (lit (.int 1))

def claimUpdate : Update JobColumn Cell where
  sets := [put .status Status.claimed.lit, put .claimedBy (.param 1),
    (.claimExpiresAt, .add (.term .now) (.term (.param 2))),
    (.runCount, .add (.term (.col .runCount)) (.term (lit (.int 1))))]
  target := .one .id claimSelect

/-- What the claim binds. -/
def claimParams (kinds : List String) (priorityFloor : Int) (lease : Duration)
    (claimedBy : String) : List (Param Cell) :=
  [bound (.text claimedBy), bound (.seconds lease), .array (kinds.map .text),
    bound (.int priorityFloor)]

/-- `guard` of `settle`, and the condition of `extend_lease`. -/
def ownedConds : List (Cond JobColumn Cell) :=
  [is .id (.param 1), is .claimedBy (.param 2), is .runCount (.param 3),
    is .status Status.claimed.lit]

/-- The columns every settlement clears. -/
def unclaim : List (JobColumn × Expr JobColumn Cell) :=
  [put .claimedBy (.lit none), put .claimExpiresAt (.lit none)]

/-- The `SET` clause of a settlement. -/
def Settlement.sets : Settlement → List (JobColumn × Expr JobColumn Cell)
  | .complete _ => [put .status Status.completed.lit, put .finishedAt (.param 4)] ++ unclaim
  | .retry .. => [put .status Status.pending.lit, put .visibleAt (.param 4),
      put .failureCount (.param 5), put .carry (.param 6)] ++ unclaim
  | .pause .. => [put .status Status.pending.lit, put .visibleAt (.param 4),
      put .carry (.param 5)] ++ unclaim
  | .dead .. => [put .status Status.dead.lit, put .finishedAt (.param 4),
      put .failureCount (.param 5)] ++ unclaim
  | .release _ => [put .status Status.pending.lit, put .visibleAt (.param 4)] ++ unclaim

/-- What a settlement binds after the guard. -/
def Settlement.params : Settlement → List (Param Cell)
  | .complete finishedAt => [bound (.time finishedAt)]
  | .retry visibleAt failureCount carry =>
      [bound (.time visibleAt), bound (.int failureCount), bound (.json carry)]
  | .pause visibleAt carry => [bound (.time visibleAt), bound (.json carry)]
  | .dead finishedAt failureCount => [bound (.time finishedAt), bound (.int failureCount)]
  | .release visibleAt => [bound (.time visibleAt)]

def Settlement.update (settlement : Settlement) : Update JobColumn Cell :=
  ⟨settlement.sets, .all ownedConds⟩

/-- The insert of `settle`, `recover` and `merge_into`. -/
def journalInsert : InsertInto JournalColumn Cell where
  values := [put .jobId (.param 1), put .kind (.param 2), put .runNo (.param 3),
    put .recordedAt (.param 4), put .outcome (.param 5), put .note (.param 6),
    put .attachment (.param 7)]

/-- What it binds. -/
def JournalAppend.params (T : UlidText) (id : Ulid) (runNo : Nat) (journal : JournalAppend) :
    List (Param Cell) :=
  [bound (.text (T.toString id)), bound (.text journal.kind), bound (.int runNo),
    bound (.time journal.recordedAt), bound (.text journal.outcome.asStr),
    .scalar (journal.note.map .text), .scalar (journal.attachment.map .json)]

def journalSelect : Select JournalColumn Cell where
  columns := journalColumns
  conds := [is .jobId (.param 1)]
  order := [(.id, .asc)]
  limit := none

def nextVisibleSelect : SelectMin JobColumn Cell where
  column := .visibleAt
  conds := [is .status Status.pending.lit, .any (.col .kind) 1, .cmp .gt (.col .visibleAt) .now]

def staleSelect : Select JobColumn Cell where
  columns := jobColumns
  conds := [is .status Status.claimed.lit, .cmp .lt (.col .claimExpiresAt) .now]
  order := [(.claimExpiresAt, .asc)]
  limit := some (lit (.int 100))

def recoverUpdate : Update JobColumn Cell where
  sets := [put .status Status.pending.lit, put .visibleAt (.param 2),
    put .failureCount (.param 3)] ++ unclaim
  target := .all [is .id (.param 1), is .status Status.claimed.lit,
    .cmp .lt (.col .claimExpiresAt) .now, is .runCount (.param 4)]

def extendUpdate : Update JobColumn Cell where
  sets := [(.claimExpiresAt, .add (.term .now) (.term (.param 4)))]
  target := .all ownedConds

def jobSelect : Select JobColumn Cell where
  columns := jobColumns
  conds := [is .id (.param 1)]
  order := []
  limit := none

def candidateSelect : Select JobColumn Cell where
  columns := jobColumns
  conds := [is .kind (.param 1), is .dedupKey (.param 2), is .status Status.pending.lit]
  order := [(.createdAt, .asc)]
  limit := some (lit (.int 1))

/-- A Replace or With writes the payload; a Keep assigns `dedup_key` to itself. -/
def mergeUpdate (update : Option MergePayload) : Update JobColumn Cell where
  sets := match update with
    | some _ => [put .payload (.param 2), put .carry (.param 3), put .priority (.param 4)]
    | none => [put .dedupKey (.col .dedupKey)]
  target := .all [is .id (.param 1), is .status Status.pending.lit]

/-- What a merge binds after the id. -/
def mergeParams : Option MergePayload → List (Param Cell)
  | some u => [bound (.json u.payload), bound (.json u.carry), bound (.int u.priority)]
  | none => []

/-! ### The statements built at run time -/

/-- The `params` and `clauses` of `query_jobs` and `cleanup`. -/
structure Clauses where
  params : List (Param Cell)
  conds : List (Cond JobColumn Cell)

/-- Push a value, and a clause with its placeholder. -/
def Clauses.push (b : Clauses) (value : Cell) (cond : Nat → Cond JobColumn Cell) : Clauses where
  params := b.params ++ [bound value]
  conds := b.conds ++ [cond (b.params ++ [bound value]).length]

/-- Push a field that is set. -/
def Clauses.pushSome (b : Clauses) (value : Option Cell) (cond : Nat → Cond JobColumn Cell) :
    Clauses :=
  match value with
  | some value => b.push value cond
  | none => b

/-- The clauses on kind and status. -/
def Clauses.pushKind (b : Clauses) (kind : Option String) (status : Option Status) : Clauses :=
  (b.pushSome (kind.map .text) fun n => is .kind (.param n)).pushSome
    (status.map fun status => .text status.asStr) fun n => is .status (.param n)

/-- The keyset bound. -/
def Clauses.pushCursor (T : UlidText) (b : Clauses) (cursor : Option (DateTime × Ulid)) :
    Clauses :=
  match cursor with
  | none => b
  | some (createdAt, id) =>
    let params := b.params ++ [bound (.time createdAt)]
    let tsIndex := params.length
    let params := params ++ [bound (.text (T.toString id))]
    let idIndex := params.length
    ⟨params, b.conds ++
      [.rowLt [.col .createdAt, .col .id] [.param tsIndex, .param idIndex]]⟩

/-- The clauses of `query_jobs`. -/
def HistoryFilter.clauses (T : UlidText) (f : HistoryFilter) : Clauses :=
  ((((Clauses.mk [] []).pushKind f.kind f.status).pushSome (f.finishedSince.map .time)
    fun n => .cmp .ge (.col .finishedAt) (.param n)).pushSome (f.finishedUntil.map .time)
    fun n => .cmp .lt (.col .finishedAt) (.param n)).pushCursor T f.createdBefore

/-- The statement of `query_jobs`. -/
def historySelect (conds : List (Cond JobColumn Cell)) (limit : Option (Term JobColumn Cell)) :
    Select JobColumn Cell where
  columns := jobColumns
  conds := conds
  order := [(.createdAt, .desc), (.id, .desc)]
  limit := limit

/-- The parameters and the statement of `query_jobs`. -/
def HistoryFilter.statement (T : UlidText) (f : HistoryFilter) :
    List (Param Cell) × Select JobColumn Cell :=
  let b := f.clauses T
  match f.limit with
  | some limit =>
    let params := b.params ++ [bound (.int limit)]
    (params, historySelect b.conds (some (.param params.length)))
  | none => (b.params, historySelect b.conds none)

/-- The clauses of `cleanup`. -/
def CleanupCriteria.clauses (c : CleanupCriteria) : Clauses :=
  (Clauses.mk [bound (.time c.finishedBefore)] [.isNotNull (.col .finishedAt),
    .cmp .lt (.col .finishedAt) (.param 1)]).pushKind c.kind c.status

/-- The parameters and the statement of `cleanup`. -/
def CleanupCriteria.statement (c : CleanupCriteria) :
    List (Param Cell) × DeleteFrom JobColumn Cell :=
  (c.clauses.params, ⟨c.clauses.conds⟩)

/-! ### The tables -/

/-- The rows of both tables, and the next identity of the journal. -/
structure Tables where
  jobs : List JobRow
  journal : List JournalRow
  next : Nat

/-- What the server contributes to a call: its clock, and the order a scan visits rows in. -/
structure ServerEnv where
  now : DateTime
  rank : Datum Cell → Nat

/-- A fault, as the call reports it. -/
def Failure.ofFault : Fault → Failure
  | .outOfRange => .error (.database .numericValueOutOfRange)
  | .datetimeOverflow => .error (.database .datetimeFieldOverflow)
  | .check => .error (.database .checkViolation)
  | .unique => .error (.database .uniqueViolation)
  | .foreignKey => .error (.database .foreignKeyViolation)
  | f => .fault f

/-- `query_opt`: more than one row is an error. -/
def optional {α : Type} : List α → Except Failure (Option α)
  | [] => .ok none
  | [a] => .ok (some a)
  | _ => .error (.fault .cardinality)

namespace Tables

/-- The migrated, still empty tables. -/
def empty : Tables := ⟨[], [], 1⟩

section Calls

variable (T : UlidText) (env : ServerEnv) (t : Tables)

/-- What a statement runs with. -/
@[simp] def ctx (params : List (Param Cell)) : Ctx Cell := ⟨T.engine, .time env.now, params⟩

def scanJobs : List JobRow := orderBy (fun r => env.rank (r .id)) t.jobs

def scanJournal : List JournalRow := orderBy (fun e => env.rank (e .id)) t.journal

/-- Run a query on the jobs and read its rows. -/
def selectJobs (q : Select JobColumn Cell) (params : List (Param Cell)) :
    Except Failure (List JobRecord) := do
  let rows ← (q.run (ctx T env params) (t.scanJobs env)).mapError Failure.ofFault
  rows.mapM (jobFromRow T)

/-- The same with `query_opt`. -/
def selectJob (q : Select JobColumn Cell) (params : List (Param Cell)) :
    Except Failure (Option JobRecord) := do
  let rows ← (q.run (ctx T env params) (t.scanJobs env)).mapError Failure.ofFault
  (← optional rows).mapM (jobFromRow T)

/-- Run an update of the jobs: the rows it changed, and the tables after it. -/
def updateJobs (u : Update JobColumn Cell) (params : List (Param Cell)) :
    Except Failure (List JobRow × Tables) := do
  let (changed, jobs) ← (u.run jobsTable (ctx T env params) (t.scanJobs env) t.jobs).mapError
    Failure.ofFault
  return (changed, { t with jobs := jobs })

/-- Insert a journal entry; its job must be stored. -/
def appendJournal (id : Ulid) (runNo : Nat) (journal : JournalAppend) : Except Failure Tables := do
  let params := journal.params T id runNo
  let base := Function.update journalTable.default .id (some (.int t.next))
  let rows ← (journalInsert.run journalTable base (ctx T env params) t.journal).mapError
    Failure.ofFault
  if t.jobs.any fun r => r .id = some (.text (T.toString id)) then
    return { t with journal := rows, next := t.next + 1 }
  else throw (Failure.ofFault .foreignKey)

/-- One update that is journaled, in the same transaction, only when it applied. -/
def guardedUpdate (u : Update JobColumn Cell) (params : List (Param Cell)) (id : Ulid)
    (runNo : Nat) (journal : JournalAppend) : Except Failure (Bool × Tables) := do
  let (changed, t) ← t.updateJobs T env u params
  if changed.length > 0 then
    let t ← t.appendJournal T env id runNo journal
    return (true, t)
  else
    return (false, t)

/-- `run_no_to_db`. -/
def runNoToDb (runNo : Nat) : Except Failure Nat := (PostgresStore.runNoToDb runNo).mapError .error

/-- `PostgresStore::enqueue`. -/
def enqueue (job : NewJob) : Except Failure (Unit × Tables) := do
  job.validate.mapError Failure.error
  let jobs ← (enqueueInsert.run jobsTable jobsTable.default (ctx T env (job.params T))
    t.jobs).mapError
    Failure.ofFault
  return ((), { t with jobs := jobs })

/-- `PostgresStore::claim_next`: one statement, committed before its row is read. -/
def claimNext (kinds : List String) (priorityFloor : Int) (lease : Duration) (claimedBy : String) :
    Except Failure (Option JobRecord) × Tables :=
  match t.updateJobs T env claimUpdate (claimParams kinds priorityFloor lease claimedBy) with
  | .error failure => (.error failure, t)
  | .ok (changed, t) =>
    let row := optional (changed.map fun r => jobColumns.map r)
    (row.bind (fun row => row.mapM (jobFromRow T)), t)

/-- `PostgresStore::settle`. -/
def settle (id : Ulid) (claimedBy : String) (runNo : Nat) (settlement : Settlement)
    (journal : JournalAppend) : Except Failure (Bool × Tables) := do
  let runNo ← runNoToDb runNo
  let storedEntryRunNo ← runNoToDb journal.runNo
  let params := [bound (.text (T.toString id)), bound (.text claimedBy), bound (.int runNo)] ++
    settlement.params
  t.guardedUpdate T env settlement.update params id storedEntryRunNo journal

/-- `PostgresStore::journal`. -/
def journalOf (id : Ulid) : Except Failure (List JournalRecord) := do
  let params := [bound (.text (T.toString id))]
  let rows ← (journalSelect.run (ctx T env params) (t.scanJournal env)).mapError Failure.ofFault
  rows.mapM (journalFromRow T)

/-- `PostgresStore::next_visible_at`. -/
def nextVisibleAt (kinds : List String) : Except Failure (Option DateTime) := do
  let params := [.array (kinds.map .text)]
  let least ← (nextVisibleSelect.run (ctx T env params) t.jobs).mapError Failure.ofFault
  rowGet [least] (nullable Cell.time?) 0

/-- `PostgresStore::find_stale`. -/
def findStale : Except Failure (List JobRecord) := t.selectJobs T env staleSelect []

/-- `PostgresStore::recover`. -/
def recover (id : Ulid) (visibleAt : DateTime) (failureCount : Int) (runNo : Nat)
    (journal : JournalAppend) : Except Failure (Bool × Tables) := do
  let runNo ← runNoToDb runNo
  let storedEntryRunNo ← runNoToDb journal.runNo
  let params := [bound (.text (T.toString id)), bound (.time visibleAt), bound (.int failureCount),
    bound (.int runNo)]
  t.guardedUpdate T env recoverUpdate params id storedEntryRunNo journal

/-- `PostgresStore::extend_lease`. -/
def extendLease (id : Ulid) (claimedBy : String) (runNo : Nat) (lease : Duration) :
    Except Failure (Bool × Tables) := do
  let runNo ← runNoToDb runNo
  let params := [bound (.text (T.toString id)), bound (.text claimedBy), bound (.int runNo),
    bound (.seconds lease)]
  let (changed, t) ← t.updateJobs T env extendUpdate params
  return (decide (changed.length > 0), t)

/-- `PostgresStore::query_jobs`. -/
def queryJobs (filter : HistoryFilter) : Except Failure (List JobRecord) :=
  let (params, q) := filter.statement T
  t.selectJobs T env q params

/-- `PostgresStore::job`. -/
def job (id : Ulid) : Except Failure (Option JobRecord) :=
  t.selectJob T env jobSelect [bound (.text (T.toString id))]

/-- `PostgresStore::cleanup`; the journal rows of a deleted job go with it. -/
def cleanup (criteria : CleanupCriteria) : Except Failure (Nat × Tables) := do
  let (params, q) := criteria.statement
  let (deleted, kept) ← (q.run (ctx T env params) t.jobs).mapError Failure.ofFault
  return (deleted.length, { t with
    jobs := kept
    journal := t.journal.filter fun e => !deleted.any fun r => r .id = e .jobId })

/-- `PostgresStore::dedup_candidate`. -/
def dedupCandidate (kind dedupKey : String) : Except Failure (Option JobRecord) :=
  t.selectJob T env candidateSelect [bound (.text kind), bound (.text dedupKey)]

/-- `PostgresStore::merge_into`. -/
def mergeInto (id : Ulid) (update : Option MergePayload) (journal : JournalAppend) :
    Except Failure (Bool × Tables) := do
  let storedEntryRunNo ← runNoToDb journal.runNo
  let params := bound (.text (T.toString id)) :: mergeParams update
  t.guardedUpdate T env (mergeUpdate update) params id storedEntryRunNo journal

/-- A transaction: an error rolls it back. -/
def commit {α : Type} : Except Failure (α × Tables) → Except Failure α × Tables
  | .ok (a, t') => (.ok a, t')
  | .error failure => (.error failure, t)

/-- Execute a call. -/
def exec : (c : Call) → Except Failure c.Answer × Tables
  | .enqueue job => t.commit (t.enqueue T env job)
  | .claimNext kinds floor lease claimedBy => t.claimNext T env kinds floor lease claimedBy
  | .settle id claimedBy runNo settlement journal =>
      t.commit (t.settle T env id claimedBy runNo settlement journal)
  | .journal id => (t.journalOf T env id, t)
  | .nextVisibleAt kinds => (t.nextVisibleAt T env kinds, t)
  | .dedupCandidate kind dedupKey => (t.dedupCandidate T env kind dedupKey, t)
  | .findStale => (t.findStale T env, t)
  | .recover id visibleAt failureCount runNo journal =>
      t.commit (t.recover T env id visibleAt failureCount runNo journal)
  | .extendLease id claimedBy runNo lease =>
      t.commit (t.extendLease T env id claimedBy runNo lease)
  | .job id => (t.job T env id, t)
  | .cleanup criteria => t.commit (t.cleanup T env criteria)
  | .mergeInto id update journal => t.commit (t.mergeInto T env id update journal)

end Calls

end Tables

end Venturi
