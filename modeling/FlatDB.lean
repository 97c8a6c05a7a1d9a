import FlatDB.Decimal.Reading
import FlatDB.Main
import FlatDB.Proofs.Admin.Arguments
import FlatDB.Proofs.Admin.Grid
import FlatDB.Proofs.Calendar
import FlatDB.Proofs.Disk.Atomicity
import FlatDB.Proofs.Index.Relation
import FlatDB.Proofs.Record.Grammar
import FlatDB.Proofs.Record.Rewriting
import FlatDB.Proofs.Session.Emptying
import FlatDB.Proofs.Session.Equality
import FlatDB.Proofs.Session.Healing
import FlatDB.Proofs.Session.History
import FlatDB.Proofs.Session.IndexTransparency
import FlatDB.Proofs.Session.Isolation
import FlatDB.Proofs.Session.Projecting
import FlatDB.Proofs.Session.Repetition
import FlatDB.Proofs.Session.RowRefinement
import FlatDB.Proofs.Session.Staleness
import FlatDB.Proofs.Table.Creation
import FlatDB.Proofs.Table.Headers
import FlatDB.Proofs.Table.Loading
import FlatDB.Proofs.Table.Roles
