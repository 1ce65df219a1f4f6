import TwoWayPeg.Bitcoin.CompactSize
import TwoWayPeg.Store.Basic

/-!
# The file of a store

A store is kept in an SQLite database, as a table with a row for each key. The file is a sequence of
pages of one size. A table is a tree of pages: leaves hold rows in cells, and other pages hold the
numbers of the pages below them. What does not fit into a cell goes on in a chain of further pages.
The first page begins with a header and is the root of the table that lists all tables.

* `StoreFile.read`: the store in a file.
* `StoreFile.empty`: a file with an empty store.

No page of a sound file is reached twice, so the number of pages bounds every walk.
-/

namespace TwoWayPeg.StoreFile

/-- The table that holds the store. -/
def tableName : String := "bridge_state"

/-! ### Pages -/

/-- A file by its pages, which are numbered from one. -/
structure Pages where
  count : Nat
  /-- The bytes of a page that can be used. -/
  usable : Nat
  page? : Nat → Option Bytes

/-- The length of the header in front of the first page's contents. -/
def headerSize : Nat := 100

/-- The text that every database begins with. -/
def signature : Bytes := Hex.utf8 "SQLite format 3" ++ [0]

/-- A number that takes some bytes, at a place. -/
def numberAt (b : Bytes) (place width : Nat) : Nat := Bytes.toNatBE ((b.drop place).take width)

/-- The pages of a file, if it is a database whose texts are in UTF-8. -/
def pages? (file : ByteArray) : Option Pages :=
  let header := (file.extract 0 headerSize).toList
  let written := numberAt header 16 2
  let size := if written = 1 then 65536 else written
  if header.length = headerSize ∧ header.take 16 = signature ∧ 512 ≤ size ∧
      numberAt header 56 4 ≤ 1 then
    some {
      count := file.size / size
      usable := size - numberAt header 20 1
      page? := fun n =>
        if 0 < n ∧ n * size ≤ file.size then some (file.extract ((n - 1) * size) (n * size)).toList
        else none }
  else none

/-! ### Cells -/

/-- A number of up to `left` bytes, read after `acc`: seven bits to a byte, and eight in the last
byte that there can be. -/
def readVarying (acc : Nat) : Nat → Reader Nat
  | 0 => fun _ => none
  | left + 1 => fun b =>
    match b with
    | [] => none
    | x :: rest =>
      if left = 0 then some (acc * 256 + x.toNat, rest)
      else if x < 0x80 then some (acc * 128 + x.toNat, rest)
      else readVarying (acc * 128 + (x.toNat - 128)) left rest

/-- A number of one to nine bytes. -/
def varying : Reader Nat := readVarying 0 9

/-- The next `length` bytes of a chain that begins at a page. -/
def chain (p : Pages) : Nat → Nat → Nat → Option Bytes
  | _, _, 0 => some []
  | 0, _, _ => none
  | fuel + 1, number, length => do
    let page ← p.page? number
    let here := (page.drop 4).take (min length (p.usable - 4))
    let rest ← chain p fuel (numberAt page 0 4) (length - (p.usable - 4))
    return here ++ rest

/-- How much of a row's bytes stands in its cell. -/
def localSize (usable length : Nat) : Nat :=
  let most := usable - 35
  let least := (usable - 12) * 32 / 255 - 23
  let fitting := least + (length - least) % (usable - 4)
  if length ≤ most then length else if fitting ≤ most then fitting else least

/-- The bytes of the row in the cell at the front. -/
def rowBytes (p : Pages) (cell : Bytes) : Option Bytes := do
  let (length, rest) ← varying cell
  let (_, rest) ← varying rest
  let here := localSize p.usable length
  let tail ← chain p p.count (numberAt rest here 4) (length - here)
  return rest.take here ++ tail

/-! ### Rows -/

/-- A value of a row: the number that tells its type, and its bytes. -/
abbrev Column := Nat × Bytes

/-- How many bytes a value of a type takes. -/
def contentSize (type : Nat) : Nat :=
  match type with
  | 5 => 6
  | 6 => 8
  | 7 => 8
  | 8 => 0
  | 9 => 0
  | n => if n < 12 then n else (n - 12) / 2

/-- The types that the bytes in front of the values spell. -/
def readTypes : Nat → Bytes → Option (List Nat)
  | _, [] => some []
  | 0, _ => none
  | fuel + 1, b => do
    let (type, rest) ← varying b
    let types ← readTypes fuel rest
    return type :: types

/-- The values of given types. -/
def readColumns : List Nat → Bytes → Option (List Column)
  | [], _ => some []
  | type :: types, b => do
    let (content, rest) ← Reader.take (contentSize type) b
    let columns ← readColumns types rest
    return (type, content) :: columns

/-- The values of a row. -/
def columns (row : Bytes) : Option (List Column) := do
  let (front, rest) ← varying row
  let (types, values) ← Reader.take (front - (row.length - rest.length)) rest
  readColumns (← readTypes types.length types) values

/-- The text that a value is, if it is a text. -/
def Column.text? (c : Column) : Option String :=
  if 12 < c.1 ∧ c.1 % 2 = 1 then String.fromUTF8? (ByteArray.mk c.2.toArray) else none

/-- What a page holds: the cells of a leaf, or the pages below. -/
inductive Node
  | leaf (cells : List Bytes)
  | inner (children : List Nat)

/-- The contents of a page of a table. -/
def node? (p : Pages) (number : Nat) : Option Node := do
  let page ← p.page? number
  let start := if number = 1 then headerSize else 0
  let cells (front : Nat) : List Bytes :=
    (List.range (numberAt page (start + 3) 2)).map fun i =>
      page.drop (numberAt page (start + front + 2 * i) 2)
  match numberAt page start 1 with
  | 13 => some (.leaf (cells 8))
  | 5 => some (.inner ((cells 12).map (numberAt · 0 4) ++ [numberAt page (start + 8) 4]))
  | _ => none

/-- The rows on some pages and below them, in order. -/
def rows (p : Pages) : Nat → List Nat → Option (List (List Column))
  | _, [] => some []
  | 0, _ => none
  | fuel + 1, number :: others =>
    match node? p number with
    | none => none
    | some (.inner children) => rows p fuel (children ++ others)
    | some (.leaf cells) => do
      let here ← cells.mapM fun cell => (rowBytes p cell).bind columns
      let rest ← rows p fuel others
      return here ++ rest

/-- The page where a table begins, if there is such a table. -/
def rootOf (name : String) (tables : List (List Column)) : Option Nat :=
  tables.findSome? fun row =>
    match row with
    | kind :: _ :: table :: root :: _ =>
      if kind.text? = some "table" ∧ table.text? = some name then
        some (if root.1 = 9 then 1 else Bytes.toNatBE root.2)
      else none
    | _ => none

/-- The key and the text of a row. -/
def entry? (row : List Column) : Option (String × String) :=
  match row with
  | key :: value :: _ => do return (← key.text?, ← value.text?)
  | _ => none

/-- The store in a file. An empty file and a file without the table hold an empty store. -/
def read (file : ByteArray) : Except StorageError Store :=
  let malformed := StorageError.database "database disk image is malformed"
  if file.size = 0 then .ok .empty
  else
    match pages? file with
    | none => .error (.database "file is not a database")
    | some p =>
      match rows p p.count [1] with
      | none => .error malformed
      | some tables =>
        match rootOf tableName tables with
        | none => .ok .empty
        | some root =>
          match (rows p p.count [root]).bind fun rs => rs.mapM entry? with
          | none => .error malformed
          | some entries => .ok (SortedMap.ofList entries)

/-! ### A new file -/

/-- The page size of new files. -/
def newPageSize : Nat := 4096

/-- A number of up to two bytes of seven bits each. -/
def encodeVarying (n : Nat) : Bytes :=
  if n < 128 then [UInt8.ofNat n] else [UInt8.ofNat (128 + n / 128), UInt8.ofNat (n % 128)]

/-- A text as a value. -/
def textColumn (s : String) : Column :=
  let b := Hex.utf8 s
  (13 + 2 * b.length, b)

/-- The cell of a short row. -/
def encodeCell (number : Nat) (columns : List Column) : Bytes :=
  let types := columns.flatMap fun c => encodeVarying c.1
  let row := encodeVarying (types.length + 1) ++ types ++ columns.flatMap (·.2)
  encodeVarying row.length ++ encodeVarying number ++ row

/-- The statement that makes the table. -/
def tableStatement : String :=
  "CREATE TABLE " ++ tableName ++
    " (key TEXT PRIMARY KEY, value TEXT NOT NULL, updated_at INTEGER NOT NULL)"

/-- A page of a tree, with its cells at its end. -/
def encodePage (front : Bytes) (kind : UInt8) (cells : List Bytes) : Bytes :=
  let places := cells.foldl (fun (places : List Nat) cell =>
    places ++ [places.getLastD newPageSize - cell.length]) []
  let head := front ++ kind :: (Bytes.ofNatBE 2 0 ++ Bytes.ofNatBE 2 cells.length ++
    Bytes.ofNatBE 2 (places.getLastD newPageSize) ++ [0] ++ places.flatMap (Bytes.ofNatBE 2))
  let body := cells.reverse.flatMap id
  head ++ List.replicate (newPageSize - head.length - body.length) 0 ++ body

/-- The header of a file of three pages. -/
def newHeader : Bytes :=
  signature ++ Bytes.ofNatBE 2 newPageSize ++ [1, 1, 0, 64, 32, 32] ++
    [1, 3, 0, 0, 1, 4, 0, 0, 1, 0, 0, 0].flatMap (Bytes.ofNatBE 4) ++
    List.replicate 20 0 ++ Bytes.ofNatBE 4 1 ++ Bytes.ofNatBE 4 3046000

/-- A file with an empty store: the list of the table and of its index, and both of them empty. -/
def empty : Bytes :=
  let index := "sqlite_autoindex_" ++ tableName ++ "_1"
  let table := encodeCell 1
    [textColumn "table", textColumn tableName, textColumn tableName, (1, [2]),
      textColumn tableStatement]
  let keys := encodeCell 2
    [textColumn "index", textColumn index, textColumn tableName, (1, [3]), (0, [])]
  encodePage newHeader 13 [table, keys] ++ encodePage [] 13 [] ++ encodePage [] 10 []

end TwoWayPeg.StoreFile
