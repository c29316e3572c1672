import Phrasebook.Bytes
import Phrasebook.Number.Numeral
import Phrasebook.Number.Rounding
import Phrasebook.Number.Binary64
import Phrasebook.Fault
import Phrasebook.Message.Node
import Phrasebook.Message.Reader
import Phrasebook.Value
import Phrasebook.Rendering
import Phrasebook.Structure
import Phrasebook.Plural.Family
import Phrasebook.Plural.Locale
import Phrasebook.Plural.Forms
import Phrasebook.Catalog.Basic
import Phrasebook.Catalog.Line
import Phrasebook.Catalog.Loading
import Phrasebook.Catalog.Phrase
import Phrasebook.Catalog.Check
import Phrasebook.Catalog.Listing
import Phrasebook.Handle
import Phrasebook.Interface.Buffer
import Phrasebook.Interface.Call
import Phrasebook.Interface.Session
import Phrasebook.Proofs.Message.Nodes
import Phrasebook.Proofs.Message.Tokens
import Phrasebook.Proofs.Message.Tree
import Phrasebook.Proofs.Message.Canonical
import Phrasebook.Proofs.Message.Writing
import Phrasebook.Proofs.Message.Conservation
import Phrasebook.Proofs.Message.Composition
import Phrasebook.Proofs.Message.Cursor
import Phrasebook.Proofs.Message.LaidOut
import Phrasebook.Proofs.Message.Positions
import Phrasebook.Proofs.Rendering.Parts
import Phrasebook.Proofs.Rendering.InsideOut
import Phrasebook.Proofs.Structure.Matching
import Phrasebook.Proofs.Structure.Mismatch
import Phrasebook.Proofs.Structure.Edits
import Phrasebook.Proofs.Structure.Distinct
import Phrasebook.Proofs.Structure.Rearrangement
import Phrasebook.Proofs.Structure.Rendering
import Phrasebook.Proofs.Plural.Selection
import Phrasebook.Proofs.Plural.Languages
import Phrasebook.Proofs.Plural.Repetition
import Phrasebook.Proofs.Plural.Splitting
import Phrasebook.Proofs.Catalog.CountedPhrase
import Phrasebook.Proofs.Catalog.Report
import Phrasebook.Proofs.Catalog.Passing
import Phrasebook.Proofs.Catalog.Preorder
import Phrasebook.Proofs.Catalog.LineWriting
import Phrasebook.Proofs.Catalog.SourceWriting
import Phrasebook.Proofs.Catalog.LineReading
import Phrasebook.Proofs.Catalog.Loaded
import Phrasebook.Proofs.Catalog.Containers
import Phrasebook.Proofs.Catalog.Shown
import Phrasebook.Proofs.Catalog.Uses
import Phrasebook.Proofs.Catalog.Leniency
import Phrasebook.Proofs.Interface.History
import Phrasebook.Proofs.Interface.LastError
import Phrasebook.Proofs.Interface.Delivery
import Phrasebook.Proofs.Interface.Bindings
import Phrasebook.Proofs.Catalog.Ending
import Phrasebook.Proofs.Catalog.EntryGrammar
import Phrasebook.Proofs.Catalog.Layout
import Phrasebook.Proofs.Catalog.EntryOrder
import Phrasebook.Proofs.Catalog.Searching
import Phrasebook.Proofs.Number.Numerals
import Phrasebook.Proofs.Number.GeneralForm
import Phrasebook.Proofs.Number.WholeText
