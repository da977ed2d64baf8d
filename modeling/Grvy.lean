import Grvy.Ocore.Storage
import Grvy.Lib.TreeMapCensus
import Grvy.Ocore.SlotInvariant
import Grvy.Ocore.StorageSpec
import Grvy.Ocore.Refinement
import Grvy.Ocore.Capacity
import Grvy.Ocore.Eviction
import Grvy.Lib.TimedTrace
import Grvy.Timing.Accounting
import Grvy.Timing.FreshStart
import Grvy.Lib.ComparedMap
import Grvy.Timing.Summary
import Grvy.Timing.Lifecycle
import Grvy.Timing.Matching
import Grvy.Timing.Likeness
import Grvy.Timing.CleanStart
import Grvy.Timing.Samples
import Grvy.Timing.PureReport
import Grvy.Timing.NameColumn
import Grvy.Lib.PathName
import Grvy.Lookup.Input
import Grvy.Lookup.Precedence
import Grvy.Lookup.Vectors
import Grvy.Ocore.Options
import Grvy.Lib.HandleTable
import Grvy.Hdf5.Library
import Grvy.Hdf5.Class
import Grvy.Hdf5.OpenFile
import Grvy.Hdf5.Attributes
import Grvy.Hdf5.Coherence
import Grvy.Lib.SavedSetting
import Grvy.Hdf5.ErrorHandler
import Grvy.Hdf5.TextAttributes
import Grvy.Lib.MessagePassing
import Grvy.Lib.RequestLink
import Grvy.Ocore.Client
import Grvy.Ocore.Protocol
import Grvy.Ocore.Session
import Grvy.Ocore.Steps
import Grvy.Ocore.Conversation
import Grvy.Ocore.Simulation
import Grvy.Ocore.ReadYourWrites
import Grvy.Ocore.ExitOrder
import Grvy.Ocore.Shutdown
import Grvy.Ocore.Ownership
import Grvy.Ocore.PopRecord
import Grvy.Lib.Barriers
import Grvy.Ocore.Statistics
import Grvy.Ocore.Waiting
import Grvy.Ocore.Progress
import Grvy.Lib.RoundRobin
import Grvy.Ocore.Balance
import Grvy.Ocore.ElementTypes
import Grvy.History.Save
import Grvy.History.SaveSpec
import Grvy.History.Summarize
import Grvy.History.SummarizeSpec
import Grvy.History.Reporting
import Grvy.History.Appending
import Grvy.Lib.KeyedLoop
import Grvy.History.HostReport
import Grvy.History.HostReportSpec
import Grvy.History.ReportColumns
import Grvy.History.ReportFiles
import Grvy.History.ReportStatistics
import Grvy.History.CommentColumn
import Grvy.Lib.FileTree
import Grvy.Lib.PathText
import Grvy.Utils.FilePath
import Grvy.Lib.TreeCopy
import Grvy.Utils.CopyDir
import Grvy.Utils.CopyResult
import Grvy.Utils.NameTemplate
import Grvy.Utils.ScratchDir
import Grvy.Lib.SkippingErase
import Grvy.Apps.Gadd
import Grvy.Apps.GaddInputs
import Grvy.Lib.Fuel
import Grvy.GetPot.Scanner
import Grvy.GetPot.Tokens
import Grvy.GetPot.Sections
import Grvy.GetPot.Brackets
import Grvy.GetPot.Expressions
import Grvy.GetPot.Object
import Grvy.GetPot.Documents
import Grvy.Lookup.FileText
import Grvy.Lookup.Dump
import Grvy.GetPot.CommandLine
import Grvy.Lib.Yields
import Grvy.Apps.Arguments
import Grvy.Apps.GaddRequests
import Grvy.Apps.Gdump
import Grvy.Apps.GdumpLines
import Grvy.Lookup.Fortran
import Grvy.Ocore.OptionsFile
import Grvy.Apps.GaddLines
import Grvy.Apps.Programs
import Grvy.Ocore.DiskTraffic
import Grvy.Ocore.Report
