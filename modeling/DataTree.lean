import DataTree.Pattern.Matcher.Lemmas
import DataTree.Proofs.Accept.Session
import DataTree.Proofs.Bulk.Session
import DataTree.Proofs.Decimal.Twice
import DataTree.Proofs.Enumeration
import DataTree.Proofs.Keys.Places
import DataTree.Proofs.LeafList.Found
import DataTree.Proofs.Ledger.Session
import DataTree.Proofs.Links.Orphans
import DataTree.Proofs.Mirror.Dangling
import DataTree.Proofs.Path.Relative
import DataTree.Proofs.Pattern.Anchors
import DataTree.Proofs.Pattern.Dollar
import DataTree.Proofs.Range.ReadBack
import DataTree.Proofs.Reference.Required
import DataTree.Proofs.Reference.Session
import DataTree.Proofs.Registry.Log
import DataTree.Proofs.Reset.Session
import DataTree.Proofs.Rollback.Instantiate
import DataTree.Proofs.Rollback.Session
import DataTree.Proofs.RoundTrip.Session
import DataTree.Proofs.Traffic.Session
import DataTree.Proofs.Typing.Default
import DataTree.Proofs.Typing.OnTree
import DataTree.Proofs.Typing.Session
import DataTree.Proofs.Typing.Whole
import DataTree.Settings.Basic
