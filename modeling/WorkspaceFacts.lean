import WorkspaceFacts.Main
import WorkspaceFacts.Proofs.CommandLine.Continuing
import WorkspaceFacts.Proofs.CommandLine.Grammar
import WorkspaceFacts.Proofs.CommandLine.Reading
import WorkspaceFacts.Proofs.Dependence
import WorkspaceFacts.Proofs.Facts.Decoding
import WorkspaceFacts.Proofs.Facts.Diagnostics
import WorkspaceFacts.Proofs.Facts.Faults
import WorkspaceFacts.Proofs.Facts.FirstFault
import WorkspaceFacts.Proofs.Facts.Inheritance
import WorkspaceFacts.Proofs.Facts.Integers
import WorkspaceFacts.Proofs.Facts.KeyPaths
import WorkspaceFacts.Proofs.Facts.LineEnds
import WorkspaceFacts.Proofs.Facts.LintsFromText
import WorkspaceFacts.Proofs.Facts.Loading
import WorkspaceFacts.Proofs.Facts.Packages
import WorkspaceFacts.Proofs.Facts.ScanOrder
import WorkspaceFacts.Proofs.Facts.Scanning
import WorkspaceFacts.Proofs.Facts.SideBySide
import WorkspaceFacts.Proofs.Facts.Telling
import WorkspaceFacts.Proofs.Facts.Trivia
import WorkspaceFacts.Proofs.Facts.VersionSpelling
import WorkspaceFacts.Proofs.Json.Grammar
import WorkspaceFacts.Proofs.Json.Printing
import WorkspaceFacts.Proofs.Json.Values
import WorkspaceFacts.Proofs.Json.Words
import WorkspaceFacts.Proofs.Log
import WorkspaceFacts.Proofs.Paths
import WorkspaceFacts.Proofs.Report.Lines
import WorkspaceFacts.Proofs.Report.Object
import WorkspaceFacts.Proofs.Report.Writing
import WorkspaceFacts.Proofs.Run
import WorkspaceFacts.Proofs.Text.Display
import WorkspaceFacts.Proofs.Toml.Describing
import WorkspaceFacts.Proofs.Toml.Distinct
import WorkspaceFacts.Proofs.Toml.KeyOrder
import WorkspaceFacts.Proofs.Toml.Mentions
import WorkspaceFacts.Proofs.Toml.Positions
import WorkspaceFacts.Proofs.Toml.Preservation
import WorkspaceFacts.Proofs.Toml.Printing
import WorkspaceFacts.Proofs.Toml.Reading.Quotes
import WorkspaceFacts.Proofs.Toml.Reading.Sources
import WorkspaceFacts.Proofs.Toml.Reading.Strings
