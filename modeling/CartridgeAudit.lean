import CartridgeAudit.Check
import CartridgeAudit.Main
import CartridgeAudit.Proofs.CommandLine.NameListing
import CartridgeAudit.Proofs.Config.Sources
import CartridgeAudit.Proofs.Document.NormalForm
import CartridgeAudit.Proofs.Document.Outline
import CartridgeAudit.Proofs.Document.Runs
import CartridgeAudit.Proofs.Document.Sections
import CartridgeAudit.Proofs.Markup.EarliestEnd
import CartridgeAudit.Proofs.Markup.IgnoredBody
import CartridgeAudit.Proofs.Markup.LiteralRuns
import CartridgeAudit.Proofs.Markup.Segmentation
import CartridgeAudit.Proofs.Markup.TagAlone
import CartridgeAudit.Proofs.Pattern.Filling
import CartridgeAudit.Proofs.Pattern.Injection
import CartridgeAudit.Proofs.Project.Generations
import CartridgeAudit.Proofs.Project.Selection
import CartridgeAudit.Proofs.Report.History
import CartridgeAudit.Proofs.Report.PrintedLines
import CartridgeAudit.Proofs.Rule.Attribution
import CartridgeAudit.Proofs.Rule.ControllerTests
import CartridgeAudit.Proofs.Rule.GuideAudits
import CartridgeAudit.Proofs.Rule.IteratorsClosed
import CartridgeAudit.Proofs.Rule.MarkedLines
import CartridgeAudit.Proofs.Rule.NamedVersions
import CartridgeAudit.Proofs.Rule.PxSizes
import CartridgeAudit.Proofs.Rule.ReadersClosed
import CartridgeAudit.Proofs.Rule.SessionUses
import CartridgeAudit.Proofs.Rule.Spans
import CartridgeAudit.Proofs.Rule.VersionGrammar
import CartridgeAudit.Proofs.Script.Balance
