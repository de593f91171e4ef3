import Baley.Guard.Torn
import Baley.Mcp.Stream
import Baley.Models.OwnerWins
import Baley.Questions.Rounds
import Baley.Scope.Consistency
import Baley.Session.Drained
import Baley.Store.OneChain
import Baley.TamperEvidence
import Baley.Checkout.Admit
import Baley.Checkout.Consistent
import Baley.Checkout.Decided
import Baley.Checkout.Interleaved
import Baley.Ledger.Effects
import Baley.Ledger.Lasting
import Baley.Mcp.Asked
import Baley.Mcp.Delivered
import Baley.Mcp.Retries
import Baley.Plan.Draft
import Baley.Calendar
import Baley.CallerForm
import Baley.Chronology
import Baley.Guard.Scan
import Baley.Guard.Scanned
import Baley.Paged
import Baley.PrefixFree
import Baley.Report
import Baley.Reported
import Baley.Store.Cursor
import Baley.Store.Pages
import Baley.Mcp.Parts
import Baley.Find
import Baley.Checkout.Strip
import Baley.Split
import Baley.Forge.Tag
import Baley.Forge.Listing
import Baley.Json.Tree
import Baley.Guard.HookInput
import Baley.Models.Reordered
import Baley.Models.Twice
import Baley.Json.Place
import Baley.Plan.Difference
import Baley.Plan.Agree
import Baley.Plan.Stale
import Baley.Json.InOrder
import Baley.Install.Compose
import Baley.Install.Owned
import Baley.Install.Merge
import Baley.Install.Kept
import Baley.Install.Decided
import Baley.Install.Coverage
import Baley.Install.Covered
import Baley.Config.Schema
import Baley.Config.Layer
import Baley.Config.Walked
import Baley.Config.InEffect
import Baley.Config.Plain
import Baley.Config.Set
import Baley.Config.Rewritten
import Baley.Config.Asked
import Baley.Store.Exclusion
