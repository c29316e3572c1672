import Phrasebook.Catalog.Basic

/-!
# Listing a catalog

Two listings show the entries of a catalog in the order of their ids: a table of all of them, and those in which a query occurs, in
any mixture of cases, in the id, the text or the label.
-/

namespace Phrasebook

namespace Catalog

/-- How wide the ids of the table are at least. -/
def idWidth : Nat := 24

/-- How wide the labels of the table are at least. -/
def labelWidth : Nat := 10

/-- A row of the table. A cell that is wider than its column pushes the rest of its row to the right. -/
def row (id label text : Bytes) : Bytes :=
  [id.padTo idWidth, utf8 " | ", label.padTo labelWidth, utf8 " | ", text, [lineFeed]].flatten

/-- The line below the heads of the columns. -/
def tableRule : Bytes := List.replicate 60 45 ++ [lineFeed]

/-- The table of a catalog: the heads of the columns, a rule, and a row for each entry. -/
def table (c : Catalog) : Bytes :=
  (row (utf8 "Id") (utf8 "Label") (utf8 "Message") :: tableRule ::
    c.entries.toList.map (fun e => row e.id e.label e.text)).flatten

end Catalog

/-- Whether a query occurs in an entry, letter case aside. -/
def Entry.holds (query : Bytes) (e : Entry) : Bool :=
  query.lower.occursIn e.id.lower || query.lower.occursIn e.text.lower || (e.label != [] && query.lower.occursIn e.label.lower)

/-- How a found entry is shown. -/
def Entry.line (e : Entry) : Bytes := [e.id, utf8 "(", e.label, utf8 "): ", e.text, [lineFeed]].flatten

namespace Catalog

/-- The entries in which a query occurs. -/
def search (c : Catalog) (query : Bytes) : List Entry := c.entries.toList.filter (fun e => e.holds query)

/-- The entries in which a query occurs in writing, and what is said when there is none. -/
def searchText (c : Catalog) (query : Bytes) : Bytes :=
  match c.search query with
  | [] => utf8 "(no matches)\n"
  | es => es.flatMap Entry.line

end Catalog

end Phrasebook
