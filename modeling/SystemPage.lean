import SystemPage.Main
import SystemPage.Proofs.Records
import SystemPage.Proofs.Rings
import SystemPage.Proofs.Circles
import SystemPage.Proofs.Inventory
import SystemPage.Proofs.Steps
import SystemPage.Proofs.Runs
import SystemPage.Proofs.Reader
import SystemPage.Proofs.History
import SystemPage.Proofs.Commands
import SystemPage.Proofs.Arguments
import SystemPage.Proofs.Image
import SystemPage.Proofs.Capacity
import SystemPage.Proofs.TwinPages
import SystemPage.Proofs.TwinSessions
import SystemPage.Proofs.TwinWords
import SystemPage.Proofs.Orders
import SystemPage.Proofs.Exact
import SystemPage.Proofs.ExactSessions
import SystemPage.Proofs.AppendOnly
import SystemPage.Proofs.Relocation
import SystemPage.Proofs.Composition
import SystemPage.Proofs.Spelling
import SystemPage.Proofs.Overlooking
import SystemPage.Proofs.Commuting
import SystemPage.Proofs.Payloads
import SystemPage.Proofs.ArgumentText
import SystemPage.Proofs.Naming
import SystemPage.Proofs.CircleGrowth
import SystemPage.Proofs.MapDecisions
import SystemPage.Proofs.ProgramDecisions
import SystemPage.Proofs.Allocation
import SystemPage.Proofs.Alignment
import SystemPage.Proofs.Disturbed
import SystemPage.Proofs.Legible
import SystemPage.Proofs.Audits
import SystemPage.Proofs.Tokens
import SystemPage.Proofs.Numerals
import SystemPage.Proofs.ProgramLines
import SystemPage.Proofs.Placements
import SystemPage.Proofs.Completion
import SystemPage.Proofs.Consoles
import SystemPage.Proofs.Letters
import SystemPage.Proofs.Walks
