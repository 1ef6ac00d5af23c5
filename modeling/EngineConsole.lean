import EngineConsole.Engine.Http
import EngineConsole.Main
import EngineConsole.Proofs.Run.Basic
import EngineConsole.Proofs.Run.Work
import EngineConsole.Proofs.Run.Requests
import EngineConsole.Proofs.Run.Outcome
import EngineConsole.Proofs.StartStop
import EngineConsole.Proofs.ConfigProvenance
import EngineConsole.Proofs.Agreement
import EngineConsole.Proofs.Run.Execution
import EngineConsole.Proofs.Decimal.Rounding
import EngineConsole.Proofs.Decimal.Shortest
import EngineConsole.Proofs.Json.Tokens
import EngineConsole.Proofs.Json.Objects
import EngineConsole.Proofs.ConfigDocument
import EngineConsole.Proofs.ExportImport
import EngineConsole.Proofs.Run.VirtualTime
import EngineConsole.Proofs.AlertLifetime
import EngineConsole.Proofs.Run.PollTimer
import EngineConsole.Proofs.PollSchedule
import EngineConsole.Proofs.Run.Course
import EngineConsole.Proofs.Completions
import EngineConsole.Proofs.Run.Beginnings
import EngineConsole.Proofs.PollCadence
import EngineConsole.Proofs.AlertPolicy
import EngineConsole.Proofs.PanelImage
import EngineConsole.Proofs.Decimal.Scanning
import EngineConsole.Proofs.Catalogs
import EngineConsole.Proofs.Text.Order
import EngineConsole.Proofs.Text.Decoding
import EngineConsole.Proofs.CanonicalConfig
import EngineConsole.Proofs.FormEditing
import EngineConsole.Proofs.SerialPolling
import EngineConsole.Proofs.Run.Aside
import EngineConsole.Proofs.Run.Settling
import EngineConsole.Proofs.PollingAside
import EngineConsole.Proofs.ReadingOrder
import EngineConsole.Proofs.Commuting
import EngineConsole.Proofs.Toml.Tokens
import EngineConsole.Proofs.Toml.Lines
import EngineConsole.Proofs.SettingsDocument
import EngineConsole.Proofs.Disk.Paths
import EngineConsole.Proofs.Disk.Places
import EngineConsole.Proofs.Disk.Changes
import EngineConsole.Proofs.Disk.Directories
import EngineConsole.Proofs.SettingsFile
import EngineConsole.Proofs.SettingsHistory
import EngineConsole.Proofs.ChartWindow
import EngineConsole.Proofs.Decimal.Nearest
import EngineConsole.Proofs.Decimal.Spelling
import EngineConsole.Proofs.Decimal.Beginnings
import EngineConsole.Proofs.Decimal.Quotients
import EngineConsole.Proofs.ShownAmounts
import EngineConsole.Proofs.NumberField
import EngineConsole.Proofs.Text.Utf16
import EngineConsole.Proofs.Json.Grammar
import EngineConsole.Proofs.Json.Scalars
import EngineConsole.Proofs.Json.Doubles
import EngineConsole.Proofs.Json.WrittenDoubles
import EngineConsole.Proofs.Json.Documents
import EngineConsole.Proofs.Json.Entries
import EngineConsole.Proofs.ImportDocument
import EngineConsole.Proofs.EngineAnswers
import EngineConsole.Proofs.Json.Cuts
import EngineConsole.Proofs.DamagedExport
import EngineConsole.Proofs.CommandLanguage
import EngineConsole.Proofs.FormHistory
import EngineConsole.Proofs.EngineHistory
import EngineConsole.Proofs.CommandEffects
import EngineConsole.Proofs.HttpOutcomes
import EngineConsole.Proofs.Text.Lines
import EngineConsole.Proofs.ChartBars
import EngineConsole.Proofs.FormListing
import EngineConsole.Proofs.Toml.Sections
import EngineConsole.Proofs.PartialSettings
