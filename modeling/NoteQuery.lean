import NoteQuery.Text.Basic
import NoteQuery.Text.Blank
import NoteQuery.Placeholder
import NoteQuery.Query.Error
import NoteQuery.Scan
import NoteQuery.Reference.Name
import NoteQuery.Reference.DataFilter
import NoteQuery.Reference.Ownership
import NoteQuery.Reference.Tag
import NoteQuery.Reference.Attribute
import NoteQuery.Query.Descriptor
import NoteQuery.Json.Literal
import NoteQuery.Json.Token
import NoteQuery.Query.Exchange
import NoteQuery.Command.Query
import NoteQuery.Command.Batch
import NoteQuery.Command.Configure
import NoteQuery.CommandLine.Run
import NoteQuery.Main
import NoteQuery.Proofs.Placeholder.Numerals
import NoteQuery.Proofs.Scan.Pieces
import NoteQuery.Proofs.Scan.Reads
import NoteQuery.Proofs.Scan.Balance
import NoteQuery.Proofs.Reference.Name
import NoteQuery.Proofs.Reference.Tag
import NoteQuery.Proofs.Query.Clauses
import NoteQuery.Proofs.Query.Parts
import NoteQuery.Proofs.Query.Phases
import NoteQuery.Proofs.Query.Placeholders
import NoteQuery.Proofs.Reference.Ownership
import NoteQuery.Proofs.Reference.OwnedPieces
import NoteQuery.Proofs.Reference.SkippedTags
import NoteQuery.Proofs.Reference.SeveredFilters
import NoteQuery.Proofs.Query.Leftover
import NoteQuery.Proofs.Placeholder.Alike
import NoteQuery.Proofs.Scan.Alike
import NoteQuery.Proofs.Reference.Alike
import NoteQuery.Proofs.Query.Alike
import NoteQuery.Proofs.Query.Independence
import NoteQuery.Proofs.Scan.Reaches
import NoteQuery.Proofs.Reference.Braces
import NoteQuery.Proofs.Query.Passes
import NoteQuery.Proofs.Reference.Reached
import NoteQuery.Proofs.Query.Positions
import NoteQuery.Proofs.Query.Acceptance
import NoteQuery.Proofs.Placeholder.Only
import NoteQuery.Proofs.Reference.PlaceholderFilters
import NoteQuery.Proofs.Query.DataFilters
import NoteQuery.Proofs.Query.Separator
import NoteQuery.Proofs.Query.Grouping
import NoteQuery.Proofs.Query.Outline
import NoteQuery.Proofs.Query.Splitting
import NoteQuery.Proofs.Command.Batch
import NoteQuery.Proofs.Json.Literal
import NoteQuery.Proofs.Json.Roundtrip
import NoteQuery.Proofs.Json.Fields
import NoteQuery.Proofs.Query.Depths
import NoteQuery.Proofs.Query.Exchange
import NoteQuery.Proofs.Placeholder.Replacing
import NoteQuery.Proofs.Reference.DataFilter
import NoteQuery.Proofs.Reference.WrittenTag
import NoteQuery.Proofs.Reference.WrittenAttribute
import NoteQuery.Proofs.Query.Listing
import NoteQuery.Proofs.Settings.File
import NoteQuery.Proofs.Command.Configure
import NoteQuery.Proofs.Query.Blanks
import NoteQuery.Proofs.Query.EveryClause
import NoteQuery.Proofs.CommandLine.ExitCode
import NoteQuery.Proofs.CommandLine.Session
import NoteQuery.Proofs.Scan.TwoPasses
import NoteQuery.Proofs.Reference.TagCut
import NoteQuery.Proofs.Reference.Rescan
import NoteQuery.Proofs.Reference.AttributeCut
import NoteQuery.Proofs.Reference.Exhausted
import NoteQuery.Proofs.Reference.Writable
import NoteQuery.Proofs.Reference.OwnerIncluded
import NoteQuery.Proofs.Query.LetterCase
import NoteQuery.Proofs.Reference.TwoSpellings
import NoteQuery.Proofs.Query.Relisting
import NoteQuery.Proofs.Reference.Decomposition
import NoteQuery.Proofs.Query.WellFormed
import NoteQuery.Proofs.Reference.BraceCount
import NoteQuery.Proofs.Reference.Overlap
