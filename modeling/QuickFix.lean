import QuickFix.Project.Step
import QuickFix.Fix.CodeAction
import QuickFix.Fix.Create
import QuickFix.Schedule.Script
import QuickFix.Schedule.Lock
import QuickFix.Log.Setup
import QuickFix.Config.Load
import QuickFix.Config.Schema
import QuickFix.Config.Settings
import QuickFix.Toml.Reader
import QuickFix.Data.Decode
import QuickFix.Data.Numeral
import QuickFix.Number.Decimal
import QuickFix.Symbol
import QuickFix.Source.Import
import QuickFix.Text.Edit
import QuickFix.Proofs.Source.Lexing
import QuickFix.Proofs.Source.Scanning
import QuickFix.Proofs.Source.Relating
import QuickFix.Proofs.Source.Leading
import QuickFix.Proofs.Source.Visibility
import QuickFix.Proofs.Source.Waiting
import QuickFix.Proofs.Source.AnnotationType
import QuickFix.Proofs.Source.Inserting
import QuickFix.Proofs.Source.Importing
import QuickFix.Proofs.Source.Grammar
import QuickFix.Proofs.Source.Reading
import QuickFix.Proofs.Name
import QuickFix.Proofs.Text.Rows
import QuickFix.Proofs.Source.ImportLines
import QuickFix.Proofs.Source.Constructor
import QuickFix.Proofs.Source.PackageStatement
import QuickFix.Proofs.Source.PackagePlace
import QuickFix.Proofs.Fix.Observing
import QuickFix.Proofs.Fix.Creating
import QuickFix.Proofs.Fix.Invoking
import QuickFix.Proofs.Schedule.History
import QuickFix.Proofs.Text.Places
import QuickFix.Proofs.Schedule.Jobs
import QuickFix.Proofs.Schedule.WriteActions
import QuickFix.Proofs.Source.ClassEdits
import QuickFix.Proofs.Project.Making
import QuickFix.Proofs.Project.Reporting
import QuickFix.Proofs.Text.Breaks
import QuickFix.Proofs.Source.Partition
import QuickFix.Proofs.Source.Layout
import QuickFix.Proofs.Source.Placing
import QuickFix.Proofs.Source.Bytewise
import QuickFix.Proofs.Source.LineBreaks
import QuickFix.Proofs.Fix.Replaying
import QuickFix.Proofs.Schedule.Worlds
import QuickFix.Proofs.Project.Files
import QuickFix.Proofs.Project.Aborting
import QuickFix.Proofs.Project.Notices
import QuickFix.Proofs.Name.Segments
import QuickFix.Proofs.Source.NameTokens
import QuickFix.Proofs.Fix.Offering
import QuickFix.Proofs.Project.NewClass
import QuickFix.Proofs.Project.Standard
import QuickFix.Proofs.Fix.Filling
import QuickFix.Proofs.Log.Mirroring
import QuickFix.Proofs.Text.Encoding
import QuickFix.Proofs.Config.Documents
import QuickFix.Proofs.Config.Agreement
import QuickFix.Proofs.Source.LiteralEnds
import QuickFix.Proofs.Source.Escaping
import QuickFix.Proofs.Log.Merging
import QuickFix.Proofs.Project.Storing
import QuickFix.Proofs.Project.Failing
import QuickFix.Proofs.Source.UnitLevels
import QuickFix.Proofs.Source.Removing
import QuickFix.Proofs.Project.Opening
import QuickFix.Proofs.Source.Independence
import QuickFix.Proofs.Text.Editing
import QuickFix.Proofs.Source.PairedBreaks
import QuickFix.Proofs.Log.Writing
import QuickFix.Proofs.Source.Seams
import QuickFix.Proofs.Source.Braces
