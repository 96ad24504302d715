import EmbeddedMarkup.Lowering
import EmbeddedMarkup.Main
import EmbeddedMarkup.Proofs.Expression.Abandonment
import EmbeddedMarkup.Proofs.Expression.Memory
import EmbeddedMarkup.Proofs.Expression.Spelling
import EmbeddedMarkup.Proofs.HostText.Agreement
import EmbeddedMarkup.Proofs.HostText.Coincidence
import EmbeddedMarkup.Proofs.HostText.Following
import EmbeddedMarkup.Proofs.HostText.Joining
import EmbeddedMarkup.Proofs.HostText.Opacity
import EmbeddedMarkup.Proofs.HostText.Placement
import EmbeddedMarkup.Proofs.HostText.Runs
import EmbeddedMarkup.Proofs.HostText.Threshold
import EmbeddedMarkup.Proofs.Lowering.NormalForm
import EmbeddedMarkup.Proofs.Lowering.Pieces
import EmbeddedMarkup.Proofs.Markup.Copy
import EmbeddedMarkup.Proofs.Markup.Embedding
import EmbeddedMarkup.Proofs.Markup.Independence
import EmbeddedMarkup.Proofs.Markup.Marks
import EmbeddedMarkup.Proofs.Markup.Restoration
import EmbeddedMarkup.Proofs.Markup.Spelling
import EmbeddedMarkup.Proofs.Markup.TagNames
import EmbeddedMarkup.Proofs.Markup.Tiling
import EmbeddedMarkup.Proofs.Markup.Unfinished
import EmbeddedMarkup.Proofs.Markup.WellFormed
import EmbeddedMarkup.Proofs.Markup.Writing
import EmbeddedMarkup.Proofs.Mode.Runs
import EmbeddedMarkup.Proofs.Outline.Faithfulness
import EmbeddedMarkup.Proofs.Reading.Accesses
import EmbeddedMarkup.Proofs.Reading.Completeness
import EmbeddedMarkup.Proofs.Reading.ExpressionSoundness
import EmbeddedMarkup.Proofs.Reading.Height
import EmbeddedMarkup.Proofs.Reading.Inclusion
import EmbeddedMarkup.Proofs.Reading.Leading
import EmbeddedMarkup.Proofs.Reading.Literals
import EmbeddedMarkup.Proofs.Reading.Precedence
import EmbeddedMarkup.Proofs.Reading.Printing
import EmbeddedMarkup.Proofs.Reading.RoundTrip
import EmbeddedMarkup.Proofs.Reading.Shape
import EmbeddedMarkup.Proofs.Reading.Slices
import EmbeddedMarkup.Proofs.Reading.Termination
import EmbeddedMarkup.Proofs.Reading.Words
import EmbeddedMarkup.Proofs.Text.Normalization
import EmbeddedMarkup.Proofs.Text.Runs
import EmbeddedMarkup.Proofs.Text.Words
import EmbeddedMarkup.Proofs.Tree.Names
import EmbeddedMarkup.Proofs.Tree.Spans
import EmbeddedMarkup.Verbatim
