import RuleFlow.Builtin
import RuleFlow.Describe
import RuleFlow.Json.Reader
import RuleFlow.Report
import RuleFlow.Session.Sharing
import RuleFlow.Proofs.Moves
import RuleFlow.Proofs.Records
import RuleFlow.Proofs.Sequence
import RuleFlow.Proofs.Output
import RuleFlow.Proofs.Causality
import RuleFlow.Proofs.Reading
import RuleFlow.Proofs.FieldEvents
import RuleFlow.Proofs.Started
import RuleFlow.Proofs.Places
import RuleFlow.Proofs.Gates
import RuleFlow.Proofs.Justification
import RuleFlow.Proofs.Log
import RuleFlow.Proofs.FieldLog
import RuleFlow.Proofs.SideBySide
import RuleFlow.Proofs.Complement
import RuleFlow.Proofs.Silence
import RuleFlow.Proofs.Independence
import RuleFlow.Proofs.LastGood
import RuleFlow.Proofs.Composition
import RuleFlow.Proofs.Sharing
import RuleFlow.Proofs.Pairs
import RuleFlow.Proofs.Marks
import RuleFlow.Proofs.Cutting
import RuleFlow.Proofs.RuleText
import RuleFlow.Proofs.ReadBack
import RuleFlow.Proofs.PipeText
import RuleFlow.Proofs.Segments
import RuleFlow.Proofs.Lookup
import RuleFlow.Proofs.LastWriter
import RuleFlow.Proofs.Listing
import RuleFlow.Proofs.ByteOrder
import RuleFlow.Proofs.ListingOrder
import RuleFlow.Proofs.SameListing
import RuleFlow.Proofs.EditDistance
import RuleFlow.Proofs.Nearest
import RuleFlow.Proofs.ShortNames
import RuleFlow.Proofs.Bars
import RuleFlow.Proofs.Shapes
import RuleFlow.Proofs.Forms
import RuleFlow.Proofs.Rejection
import RuleFlow.Proofs.History
import RuleFlow.Proofs.Reports
