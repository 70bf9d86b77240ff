import RaisingEffects.Main
import RaisingEffects.Proofs.Verdict.Policies
import RaisingEffects.Proofs.Verdict.ErrorTypes
import RaisingEffects.Proofs.Verdict.Raises
import RaisingEffects.Proofs.Verdict.Order
import RaisingEffects.Proofs.Verdict.Layout
import RaisingEffects.Proofs.Verdict.Lookups
import RaisingEffects.Proofs.Analysis.Callees
import RaisingEffects.Proofs.Verdict.Distinct
import RaisingEffects.Proofs.Verdict.Erasure
import RaisingEffects.Proofs.Verdict.Assignments
import RaisingEffects.Proofs.Parse.Recovery
import RaisingEffects.Proofs.Parse.Thinning
import RaisingEffects.Proofs.Parse.Walks
import RaisingEffects.Proofs.Parse.Clauses
import RaisingEffects.Proofs.Parse.Precedence
import RaisingEffects.Proofs.Forwarding.Renaming
import RaisingEffects.Proofs.Config.Settings
import RaisingEffects.Proofs.Session.Elements
import RaisingEffects.Proofs.Analysis.Naming
import RaisingEffects.Proofs.Forwarding.Containment
import RaisingEffects.Proofs.Config.Faults
import RaisingEffects.Proofs.Config.Sources
import RaisingEffects.Proofs.Config.Paths
import RaisingEffects.Proofs.Token.Lines
import RaisingEffects.Proofs.Report.Lines
