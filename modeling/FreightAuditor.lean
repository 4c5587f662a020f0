import FreightAuditor.RuleEngine.MoreInformation
import FreightAuditor.RuleEngine.Totality
import FreightAuditor.RuleEngine.DualControl
import FreightAuditor.RubricResolver.MonotonicTighten
import FreightAuditor.Claims.DerivedStatus
import FreightAuditor.Claims.SharedFinding
import FreightAuditor.Claims.ReportAgreement
import FreightAuditor.Workflow.LegalHistory
import FreightAuditor.Workflow.Deliveries
import FreightAuditor.Workflow.RecurringScan
import FreightAuditor.Disputes.LifecycleCommits
import FreightAuditor.Contracts.LiveEvidence
import FreightAuditor.Contracts.LastWord
import FreightAuditor.Ingestion.SftpPolls
import FreightAuditor.ReferenceData.ExternalAxes
import FreightAuditor.Evaluator.CitedVersions
import FreightAuditor.Identity.AccountDoors
import FreightAuditor.Identity.RoleChanges
import FreightAuditor.Findings.FindingPages
import FreightAuditor.Ingestion.CarrierMatch
import FreightAuditor.Discovery.Reruns
import FreightAuditor.Contracts.PersistExtraction
import FreightAuditor.Findings.ListGateFailures
import FreightAuditor.Contracts.AmendmentImpact
import FreightAuditor.Evaluator.Scorecards
import FreightAuditor.RuleEngine.GoldenCorpus
import FreightAuditor.Contracts.RateTableVerdicts
import FreightAuditor.Ingestion.X12RoundTrip
import FreightAuditor.RateEngine.ExpectedCharges
import FreightAuditor.RubricResolver.CascadeMeaning
import FreightAuditor.RubricResolver.FoldTiers
import FreightAuditor.RubricResolver.CanonicalRubric
import FreightAuditor.RateEngine.PersistAlignment
import FreightAuditor.RubricResolver.AsOfResolution
import FreightAuditor.Evaluator.Attribution
import FreightAuditor.Ingestion.ExactMoney
import FreightAuditor.Exports.ExportAttempts
import FreightAuditor.Payments.Escalations
import FreightAuditor.Contracts.Reproposals
import FreightAuditor.Disputes.IngestedOvercharges
import FreightAuditor.Ingestion.CorrectionCapture
import FreightAuditor.Ingestion.Interchanges
import FreightAuditor.Tenancy.Isolation
