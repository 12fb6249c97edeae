import ScriptHost.CommandLine
import ScriptHost.Describe
import ScriptHost.Proofs.OutputRestoration
import ScriptHost.Proofs.Rollback
import ScriptHost.Proofs.CacheEffects
import ScriptHost.Proofs.SelectionHistory
import ScriptHost.Proofs.GlobalAssignment
import ScriptHost.Proofs.InjectedScopes
import ScriptHost.Proofs.InjectionEffects
import ScriptHost.Proofs.InjectionHistory
import ScriptHost.Proofs.HiddenBindings
import ScriptHost.Proofs.AcquisitionAgreement
import ScriptHost.Proofs.Separation
import ScriptHost.Proofs.Sessions
import ScriptHost.Proofs.Isolation
import ScriptHost.Proofs.ConfigSources
import ScriptHost.Proofs.Copying
import ScriptHost.Proofs.Delivery
import ScriptHost.Proofs.FailedConstruction
import ScriptHost.Proofs.CacheHistory
import ScriptHost.Proofs.ConfigReaders
import ScriptHost.Proofs.ConfigReadback
import ScriptHost.Proofs.ScriptTraces
import ScriptHost.Proofs.GlobalHistory
import ScriptHost.Proofs.ModuleCandidates
import ScriptHost.Proofs.Preparation
import ScriptHost.Proofs.OwnedGuards
import ScriptHost.Proofs.ManagerHandles
import ScriptHost.Proofs.ResultsContainers
import ScriptHost.Proofs.DocumentFlag
import ScriptHost.Proofs.LimitVariable
import ScriptHost.Proofs.WrittenPieces
import ScriptHost.Proofs.WrittenNumbers
import ScriptHost.Proofs.PolicySpellings
import ScriptHost.Proofs.CommandRuns
