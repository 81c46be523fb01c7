import DocHighlighter.Grammar.Validate
import DocHighlighter.Main
import DocHighlighter.Proofs.Pattern.Passages
import DocHighlighter.Proofs.Pattern.Advance
import DocHighlighter.Proofs.Pattern.Beside
import DocHighlighter.Proofs.Scanner.Steps
import DocHighlighter.Proofs.Scanner.Ready
import DocHighlighter.Proofs.Grammar.Ready
import DocHighlighter.Proofs.Grammar.Scan
import DocHighlighter.Proofs.Grammar.Stalling
import DocHighlighter.Proofs.Grammar.Lossless
import DocHighlighter.Proofs.Grammar.Validated
import DocHighlighter.Proofs.Html.Escaping
import DocHighlighter.Proofs.Html.Growing
import DocHighlighter.Proofs.Html.Written
import DocHighlighter.Proofs.Html.ReadsBack
import DocHighlighter.Proofs.Html.WritesBack
import DocHighlighter.Proofs.Highlight.Pieces
import DocHighlighter.Proofs.Highlight.Spans
import DocHighlighter.Proofs.Html.Snippet
import DocHighlighter.Proofs.Block.Elements
import DocHighlighter.Proofs.Html.Places
import DocHighlighter.Proofs.Engine.Full
import DocHighlighter.Proofs.Render.DoxygenPage
import DocHighlighter.Proofs.Block.Stages
import DocHighlighter.Proofs.Render.Fragments
import DocHighlighter.Proofs.Block.Settled
import DocHighlighter.Proofs.Engine.Registered
import DocHighlighter.Proofs.Render.Settled
import DocHighlighter.Proofs.Render.FragmentsSettled
import DocHighlighter.Proofs.Grammar.WholeMatches
import DocHighlighter.Proofs.Highlight.Lossless
import DocHighlighter.Proofs.Engine.Coherent
import DocHighlighter.Proofs.Render.Alike
import DocHighlighter.Proofs.Site.Files
import DocHighlighter.Proofs.Site.PageByPage
import DocHighlighter.Proofs.Html.NulFree
import DocHighlighter.Proofs.Html.Sound
import DocHighlighter.Proofs.Html.Ground
import DocHighlighter.Proofs.Html.Fitting
import DocHighlighter.Proofs.Html.Root
import DocHighlighter.Proofs.Html.Exchanged
import DocHighlighter.Proofs.Text.Fields
import DocHighlighter.Proofs.Block.Kept
import DocHighlighter.Proofs.Block.MarkTests
import DocHighlighter.Proofs.Text.Newlines
import DocHighlighter.Proofs.Text.Utf8
import DocHighlighter.Proofs.Html.Patched
import DocHighlighter.Proofs.Html.Substituted
import DocHighlighter.Proofs.Block.Classified
import DocHighlighter.Proofs.Block.Counted
import DocHighlighter.Proofs.Render.Truthful
import DocHighlighter.Proofs.Site.DryRun
import DocHighlighter.Proofs.Pattern.Words
import DocHighlighter.Proofs.Pattern.Runs
import DocHighlighter.Proofs.Pattern.IgnoreCase
import DocHighlighter.Proofs.Pattern.WordForm
import DocHighlighter.Proofs.Pattern.ReadsWords
import DocHighlighter.Proofs.Grammar.Tree
import DocHighlighter.Proofs.Grammar.Names
import DocHighlighter.Proofs.Grammar.Refines
import DocHighlighter.Proofs.Scanner.Places
import DocHighlighter.Proofs.Scanner.RootOnly
import DocHighlighter.Proofs.Scanner.Ends
import DocHighlighter.Proofs.Scanner.Weights
import DocHighlighter.Proofs.Scanner.Takes
import DocHighlighter.Proofs.Scanner.Misses
import DocHighlighter.Proofs.Lexer.CFamily
import DocHighlighter.Proofs.Lexer.Javascript
import DocHighlighter.Proofs.Lexer.ReadyMade
import DocHighlighter.Proofs.Scanner.Inside
import DocHighlighter.Proofs.Render.Staged
import DocHighlighter.Proofs.Grammar.Keywords
import DocHighlighter.Proofs.Engine.AppendOnly
import DocHighlighter.Proofs.Engine.Meaning
import DocHighlighter.Proofs.Engine.Settling
import DocHighlighter.Proofs.Text.UpperCase
import DocHighlighter.Proofs.Grammar.SoundCheck
import DocHighlighter.Proofs.Text.Classes
import DocHighlighter.Proofs.Pattern.Sequences
import DocHighlighter.Proofs.Grammar.Spans
import DocHighlighter.Proofs.Language.Idl.Patterns
import DocHighlighter.Proofs.Language.Idl.Spans
import DocHighlighter.Proofs.Pattern.FormMatches
import DocHighlighter.Proofs.Grammar.Words
import DocHighlighter.Proofs.Text.Lines
import DocHighlighter.Proofs.Language.Idl.Plain
import DocHighlighter.Proofs.Language.Idl.Lines
import DocHighlighter.Proofs.Html.Regular
import DocHighlighter.Proofs.Html.Reread
import DocHighlighter.Proofs.Html.Lasting
import DocHighlighter.Proofs.Html.KeptMarkup
import DocHighlighter.Proofs.Render.Buttons
import DocHighlighter.Proofs.Render.ButtonsSettled
import DocHighlighter.Proofs.Render.ReadBack
import DocHighlighter.Proofs.Render.Unchanged
import DocHighlighter.Proofs.Block.Ends
import DocHighlighter.Proofs.Render.Ends
import DocHighlighter.Proofs.Block.Completed
import DocHighlighter.Proofs.Block.Languages
import DocHighlighter.Proofs.Token.Tagging
import DocHighlighter.Proofs.Grammar.Tagging
import DocHighlighter.Proofs.Language.Idl.Words
import DocHighlighter.Proofs.Grammar.Extents
import DocHighlighter.Proofs.Language.Idl.Extents
import DocHighlighter.Proofs.Html.Origins
import DocHighlighter.Proofs.Site.Discovery
import DocHighlighter.Proofs.Site.Ends
import DocHighlighter.Proofs.Site.Paths
import DocHighlighter.Proofs.Command.Arguments
import DocHighlighter.Proofs.Command.Console
import DocHighlighter.Proofs.Command.Failures
import DocHighlighter.Proofs.Html.Texts
import DocHighlighter.Proofs.Block.LineTexts
import DocHighlighter.Proofs.Block.KeptLines
import DocHighlighter.Proofs.Engine.Discovered
import DocHighlighter.Proofs.Text.Case
import DocHighlighter.Proofs.Grammar.EitherCase
import DocHighlighter.Proofs.Grammar.Stacks
import DocHighlighter.Proofs.Grammar.Report
