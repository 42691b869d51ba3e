import EnvFill.Main
import EnvFill.Proofs.AddedReturns
import EnvFill.Proofs.AdvisedLines
import EnvFill.Proofs.ChangedFiles
import EnvFill.Proofs.ClearedScan
import EnvFill.Proofs.ConsistentReports
import EnvFill.Proofs.EditedTexts
import EnvFill.Proofs.FailedScans
import EnvFill.Proofs.FileInvariants
import EnvFill.Proofs.FinishedFolders
import EnvFill.Proofs.IndependentFolders
import EnvFill.Proofs.KeptValues
import EnvFill.Proofs.MarkedFolders
import EnvFill.Proofs.NarrowedScans
import EnvFill.Proofs.PastedValues
import EnvFill.Proofs.PreviewedValues
import EnvFill.Proofs.RewrittenLines
import EnvFill.Proofs.SavedCount
import EnvFill.Proofs.SecretNames
import EnvFill.Proofs.SessionOrder
import EnvFill.Proofs.SkippedNames
import EnvFill.Proofs.SyncedTemplate
import EnvFill.Proofs.UndisclosedValues
import EnvFill.Proofs.WholeNames
import EnvFill.Proofs.WriteFailures
import EnvFill.Storage.Setup
