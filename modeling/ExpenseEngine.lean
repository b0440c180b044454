import ExpenseEngine.Invariants.Settlement
import ExpenseEngine.Invariants.Links
import ExpenseEngine.Invariants.Amounts
import ExpenseEngine.Sql.Isolation
import ExpenseEngine.Effects.ReadOnly
import ExpenseEngine.Effects.Statements
import ExpenseEngine.Invariants.OpeningBalance
import ExpenseEngine.Invariants.Versions
import ExpenseEngine.MonthlyReport
import ExpenseEngine.Reports.MonthFlow
import ExpenseEngine.Invariants.Audit
import ExpenseEngine.Invariants.Drafts
import ExpenseEngine.Listings
import ExpenseEngine.Refinement.Readiness
import ExpenseEngine.Races.DeleteRestore
import ExpenseEngine.Races.LedgerAudit
import ExpenseEngine.Invariants.SystemCategories
import ExpenseEngine.Invariants.Archived
import ExpenseEngine.Invariants.Locality
import ExpenseEngine.Refinement.Promotion
import ExpenseEngine.Refinement.Undo
import ExpenseEngine.Races.Seeding
import ExpenseEngine.Invariants.Names
import ExpenseEngine.Invariants.Tokens
import ExpenseEngine.Reads
import ExpenseEngine.Refinement.Batch
import ExpenseEngine.Refinement.Tags
import ExpenseEngine.Refinement.Search
import ExpenseEngine.Reports.MonthRange
import ExpenseEngine.Refinement.Rates
import ExpenseEngine.Invariants.SortOrder
import ExpenseEngine.Refinement.Pages
import ExpenseEngine.Jobs.Isolation
import ExpenseEngine.Jobs.Plausibility
import ExpenseEngine.Refinement.HomeCents
import ExpenseEngine.Cache.RateCache
import ExpenseEngine.Invariants.ReadsAnswer
import ExpenseEngine.Tenancy.Noninterference
import ExpenseEngine.Races.Retries
import ExpenseEngine.Races.Promotions
import ExpenseEngine.Jobs.Backfill
