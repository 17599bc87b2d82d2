import BusScript.Image.Listing
import BusScript.Proofs.CompiledSafety
import BusScript.Proofs.CompilerLimits
import BusScript.Proofs.Preservation
import BusScript.Proofs.Returning
import BusScript.Proofs.Survival
import BusScript.Proofs.Signals
import BusScript.Proofs.Autobinding
import BusScript.Proofs.CacheRuns
import BusScript.Proofs.FreshStarts
import BusScript.Proofs.ReportOptions
import BusScript.Proofs.RoleOrder
import BusScript.Proofs.Restarts
import BusScript.Proofs.LateReads
import BusScript.Proofs.RunnerLife
import BusScript.Proofs.Templates
import BusScript.Proofs.GuardedLoading
import BusScript.Proofs.ScopeBalance
