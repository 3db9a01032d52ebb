import VirtualBlocks.Assembly
import VirtualBlocks.Files.Memory
import VirtualBlocks.Main
import VirtualBlocks.Plugin.Requests
import VirtualBlocks.Plugin.Transform
import VirtualBlocks.Proofs.Markup.Component
import VirtualBlocks.Proofs.Markup.Layout
import VirtualBlocks.Proofs.Markup.Nesting
import VirtualBlocks.Proofs.Markup.Turns
import VirtualBlocks.Proofs.Markup.Written
import VirtualBlocks.Proofs.Path.LastSegment
import VirtualBlocks.Proofs.Plugin.Answers
import VirtualBlocks.Proofs.Plugin.Relocation
import VirtualBlocks.Proofs.Text.Positions
import VirtualBlocks.Proofs.VirtualId.Grammar
import VirtualBlocks.Proofs.VirtualId.Reencoding
import VirtualBlocks.Proofs.VirtualId.BlockIds
import VirtualBlocks.Proofs.Assets.Binding
import VirtualBlocks.Proofs.Assets.Imports
import VirtualBlocks.Proofs.Json.RoundTrip
import VirtualBlocks.Proofs.Json.DataModel
import VirtualBlocks.Proofs.Assets.Calls
import VirtualBlocks.Proofs.SourceMap.Mappings
import VirtualBlocks.Proofs.SourceMap.Blocks
import VirtualBlocks.Proofs.Plugin.Extraction
import VirtualBlocks.Proofs.Markup.Progress
import VirtualBlocks.Proofs.Markup.RawText
import VirtualBlocks.Proofs.Markup.Balance
import VirtualBlocks.Proofs.Markup.TagText
import VirtualBlocks.Proofs.Markup.InnerTags
import VirtualBlocks.Proofs.Markup.Faults
import VirtualBlocks.Proofs.Plugin.Failures
import VirtualBlocks.Proofs.VirtualId.Joined
import VirtualBlocks.Proofs.Plugin.RawStyles
import VirtualBlocks.Proofs.Plugin.Themes
import VirtualBlocks.Proofs.Json.Leading
import VirtualBlocks.Proofs.Text.Lines
import VirtualBlocks.Proofs.Text.Replacement
import VirtualBlocks.Proofs.Assembly.Styles
import VirtualBlocks.Proofs.Assembly.Declarations
import VirtualBlocks.Proofs.Path.Folded
import VirtualBlocks.Proofs.Path.Canonical
import VirtualBlocks.Proofs.Plugin.Stability
import VirtualBlocks.Proofs.Package.Candidates
import VirtualBlocks.Proofs.Plugin.Specifiers
import VirtualBlocks.Proofs.Checksum
import VirtualBlocks.Proofs.Files.Memory
import VirtualBlocks.Proofs.TagFilter
import VirtualBlocks.Proofs.Plugin.Exports
import VirtualBlocks.Proofs.Cli.Listing
import VirtualBlocks.Proofs.Assets.Identifiers
import VirtualBlocks.Proofs.SourceMap.Words
import VirtualBlocks.Proofs.Text.SolidLines
