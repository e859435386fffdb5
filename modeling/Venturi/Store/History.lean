import Mathlib.Data.Prod.Lex
import Venturi.Store.Records

namespace Venturi

/-!
# The history query (`store.rs`)

`HistoryFilter` and what its fields ask of a row.  A column comparison with a row that has no
finish time is false.
-/

/-- `HistoryFilter`. -/
structure HistoryFilter where
  kind : Option String
  status : Option Status
  finishedSince : Option DateTime
  finishedUntil : Option DateTime
  createdBefore : Option (DateTime × Ulid)
  limit : Option Int
  deriving DecidableEq, Repr

/-- Where a row stands in the order of the history. -/
def JobRecord.position (r : JobRecord) : DateTime ×ₗ Ulid := toLex (r.createdAt, r.id)

/-- The clauses on kind, status and finish time. -/
def HistoryFilter.matches (f : HistoryFilter) (r : JobRecord) : Bool :=
  f.kind.all (r.kind = ·) && f.status.all (r.status = ·) &&
    f.finishedSince.all (fun since => r.finishedAt.any (since ≤ ·)) &&
    f.finishedUntil.all (fun until_ => r.finishedAt.any (· < until_))

/-- The keyset bound. -/
def HistoryFilter.older (f : HistoryFilter) (r : JobRecord) : Bool :=
  f.createdBefore.all (fun cursor => r.position < toLex cursor)

/-- The request for one page. -/
def HistoryFilter.page (f : HistoryFilter) (cursor : Option (DateTime × Ulid)) (limit : Int) :
    HistoryFilter :=
  { f with createdBefore := cursor, limit := some limit }

end Venturi
