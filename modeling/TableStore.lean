import TableStore.Database
import TableStore.Proofs.BTree.Capacity
import TableStore.Proofs.BTree.Height
import TableStore.Proofs.BTree.RoundTrip
import TableStore.Proofs.Database.Columns
import TableStore.Proofs.Database.Creation
import TableStore.Proofs.Database.Distinct
import TableStore.Proofs.Database.Effect
import TableStore.Proofs.Database.Failure
import TableStore.Proofs.Database.Grouping
import TableStore.Proofs.Database.Quotation
import TableStore.Proofs.Ordering
import TableStore.Proofs.Statement.EndOfInput
import TableStore.Proofs.Statement.Expected
import TableStore.Proofs.Statement.Parsed
import TableStore.Proofs.Store.ById
import TableStore.Proofs.Store.Conforming
import TableStore.Proofs.Store.Independent
import TableStore.Proofs.Store.Indexed
import TableStore.Proofs.Store.Refused
import TableStore.Proofs.Store.Reopened
import TableStore.Proofs.Store.TableFile
import TableStore.Proofs.Store.Traceless
import TableStore.Proofs.Store.Unnamed
