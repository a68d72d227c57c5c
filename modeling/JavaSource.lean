import JavaSource.Format.Pass
import JavaSource.Grammar.Parse
import JavaSource.Grammar.Report
import JavaSource.Pattern.Annotation
import JavaSource.Proofs.Formatting
import JavaSource.Proofs.Interning
import JavaSource.Proofs.Lossless
import JavaSource.Proofs.ParameterLists
import JavaSource.Style.Setting
import JavaSource.Tree.Edit
import JavaSource.Tree.Equal
import JavaSource.Tree.Summary
import JavaSource.Types.Copy
import JavaSource.Types.Display
import JavaSource.Visit.Cursor
import JavaSource.Visit.Events
import JavaSource.Visit.Locate
import JavaSource.Visit.Rewrite
import JavaSource.Proofs.Coupling
import JavaSource.Proofs.Slots
import JavaSource.Proofs.VisitOrder
import JavaSource.Proofs.Overrides
import JavaSource.Proofs.StopAfter
import JavaSource.Proofs.Deletion
import JavaSource.Proofs.LocalResults
import JavaSource.Proofs.LocalDeletion
import JavaSource.Proofs.DeletedText
import JavaSource.Proofs.DeletedTrail
import JavaSource.Proofs.Marks
import JavaSource.Proofs.IndentDeletion
import JavaSource.Proofs.Insertion
import JavaSource.Proofs.TargetedFormatting
import JavaSource.Proofs.Walks
import JavaSource.Proofs.Filing
import JavaSource.Proofs.Precedence
import JavaSource.Proofs.Weighing
import JavaSource.Proofs.Weighed
import JavaSource.Proofs.Ahead
import JavaSource.Proofs.LexedLines
import JavaSource.Proofs.Persisted
import JavaSource.Proofs.StatementLists
import JavaSource.Proofs.Partition
import JavaSource.Proofs.CursorRuns
import JavaSource.Proofs.Forks
import JavaSource.Proofs.SpaceVisits
import JavaSource.Proofs.Respelled
import JavaSource.Proofs.Nesting
import JavaSource.Proofs.LineBreaks
import JavaSource.Proofs.Layouts
import JavaSource.Proofs.BlockStructure
import JavaSource.Proofs.BlockIndents
import JavaSource.Proofs.Frames
import JavaSource.Proofs.Placement
import JavaSource.Proofs.ClassHeaders
import JavaSource.Proofs.TypeAhead
import JavaSource.Proofs.Returning
import JavaSource.Proofs.Returned
import JavaSource.Proofs.Termination
import JavaSource.Proofs.Repeating
import JavaSource.Proofs.RepeatedSpacing
import JavaSource.Proofs.RepeatedGathering
import JavaSource.Proofs.RepeatedPasses
import JavaSource.Proofs.Operations
import JavaSource.Proofs.OperationsAhead
import JavaSource.Proofs.OperationRuns
import JavaSource.Proofs.ParsedOperations
import JavaSource.Proofs.PassFrames
import JavaSource.Proofs.GatheredText
import JavaSource.Proofs.TrimmedLines
import JavaSource.Proofs.StructuralEquality
import JavaSource.Proofs.ClassVariants
import JavaSource.Proofs.ChangedCopies
import JavaSource.Proofs.TrieNodes
import JavaSource.Proofs.Parameterized
import JavaSource.Proofs.SpaceReading
import JavaSource.Proofs.BlankLineBounds
import JavaSource.Proofs.SoundTrails
import JavaSource.Proofs.FirstLine
import JavaSource.Proofs.HeaderColumns
import JavaSource.Proofs.HeaderAlignment
import JavaSource.Proofs.ClassMembers
import JavaSource.Proofs.Ancestors
import JavaSource.Proofs.NestedNames
import JavaSource.Proofs.PackageNames
import JavaSource.Proofs.SegmentPatterns
import JavaSource.Proofs.PatternGrammar
import JavaSource.Proofs.OwnPatterns
import JavaSource.Proofs.MatchingAncestors
import JavaSource.Proofs.RepeatedLineEnds
import JavaSource.Proofs.IndentColumns
import JavaSource.Proofs.OutdentedText
