import HtmlMend.Main
import HtmlMend.Proofs.Page.CellTexts
import HtmlMend.Proofs.Page.Composition
import HtmlMend.Proofs.Page.MainContent
import HtmlMend.Proofs.Page.MainPairs
import HtmlMend.Proofs.Page.SimpleTables
import HtmlMend.Proofs.Page.Stable
import HtmlMend.Proofs.Markup.Malformed
import HtmlMend.Proofs.Page.Delivery
import HtmlMend.Proofs.Page.Strict
import HtmlMend.Proofs.Page.AsRead
import HtmlMend.Proofs.CommandLine.Status
import HtmlMend.Proofs.CommandLine.Files
import HtmlMend.Proofs.Page.RuleReading
import HtmlMend.Proofs.Page.HeaderReading
import HtmlMend.Proofs.Page.Alone
import HtmlMend.Proofs.Table.HeaderStyle
import HtmlMend.Proofs.Table.PrimaryColumn
import HtmlMend.Proofs.Page.Rendering
import HtmlMend.Proofs.Markup.Script
import HtmlMend.Proofs.Style.Merging
import HtmlMend.Proofs.Page.WrittenTag
import HtmlMend.Proofs.Markup.Delimited
import HtmlMend.Proofs.Markup.Lines
import HtmlMend.Proofs.Input.Accounting
import HtmlMend.Proofs.Page.Progress
import HtmlMend.Proofs.Page.LetterCase
import HtmlMend.Proofs.Markup.Reuse
