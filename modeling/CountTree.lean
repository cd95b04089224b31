import CountTree.CommandLine
import CountTree.Main
import CountTree.Proofs.ArchitectureReport
import CountTree.Proofs.Attachment
import CountTree.Proofs.Calls
import CountTree.Proofs.Commands
import CountTree.Proofs.CountReport
import CountTree.Proofs.JobStages
import CountTree.Proofs.JsonReading
import CountTree.Proofs.MacOperations
import CountTree.Proofs.MemoryLoads
import CountTree.Proofs.ObservationOrder
import CountTree.Proofs.Refusals
import CountTree.Proofs.ReportFiles
import CountTree.Proofs.ReportedRun
import CountTree.Proofs.SettingEdits
import CountTree.Proofs.StaleReports
import CountTree.Proofs.SummaryCounts
import CountTree.Proofs.SummaryLookUp
import CountTree.Proofs.UncheckedWalks
import CountTree.Proofs.YamlDocuments
