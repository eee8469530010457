import Vivarium.Toml.Text
import Vivarium.Toml.Tree

/-!
# Reading TOML documents

A document is a sequence of lines: comments, headers and entries. Entries belong to the table of the
last header. Reading yields the data of the whole document, or nothing if the document breaks a rule.
-/

namespace Vivarium.Toml

/-! ## Blank space and comments -/

/-- The rest after a comment, if there is one. -/
def skipComment : List Char → List Char
  | '#' :: rest => rest.dropWhile isPrintable
  | cs          => cs

/-- The rest after the end of a line: blanks, a comment, and a line end or the end of the text. -/
def lineEnd? (cs : List Char) : Option (List Char) :=
  match skipComment (skipBlanks cs) with
  | []   => some []
  | rest => newline? rest

/-- Skips blanks, line ends and comments between the items of an array. -/
def skipSpace : (fuel : Nat) → List Char → List Char
  | 0,        cs => cs
  | fuel + 1, cs =>
    let cs := skipBlanks cs
    match newline? (skipComment cs) with
    | some rest => skipSpace fuel rest
    | none      => cs

/-! ## Values -/

mutual

/-- A value. Arrays and inline tables nest less than `depthBound` deep. -/
def value? : (fuel depth : Nat) → Reader Datum
  | 0,        _,     _         => none
  | fuel + 1, depth, '[' :: cs =>
    if depth + 1 < depthBound then do
      let (items, rest) ← items? fuel (depth + 1) cs
      return (.list items, rest)
    else none
  | fuel + 1, depth, '\x7b' :: cs =>
    if depth + 1 < depthBound then do
      let (table, rest) ← match skipBlanks cs with
        | '\x7d' :: rest => some (.empty, rest)
        | _              => entries? fuel (depth + 1) (.mk true false []) cs
      return (table.datum, rest)
    else none
  | _ + 1,    _,     '"' :: cs  => do
    let (text, rest) ← text? '"' true cs
    return (.text text, rest)
  | _ + 1,    _,     '\'' :: cs => do
    let (text, rest) ← text? '\'' false cs
    return (.text text, rest)
  | _ + 1,    _,     cs         => bare? cs

/-- The items of an array up to its closing bracket. A comma may follow the last one. -/
def items? : (fuel depth : Nat) → Reader (List Datum)
  | 0,        _,     _  => none
  | fuel + 1, depth, cs =>
    match skipSpace (cs.length + 1) cs with
    -- a comma may stand behind the last item
    | ']' :: rest => some ([], rest)
    | cs          => do
      let (d, rest) ← value? fuel depth cs
      match skipSpace (rest.length + 1) rest with
      | ',' :: rest => do
        let (ds, rest) ← items? fuel depth rest
        return (d :: ds, rest)
      | ']' :: rest => return ([d], rest)
      | _           => none

/-- The entries of an inline table up to its closing brace, added to a table. -/
def entries? : (fuel depth : Nat) → Section → Reader Section
  | 0,        _,     _, _  => none
  | fuel + 1, depth, s, cs => do
    let ((path, key), rest) ← key? cs
    let (d, rest) ← value? fuel depth (skipBlanks (← expect '=' rest))
    let s ← s.enter path key d
    match skipBlanks rest with
    | ',' :: rest    => entries? fuel depth s rest
    | '\x7d' :: rest => return (s, rest)
    | _              => none

end

/-! ## Documents -/

/-- A document as far as it has been read: the finished tables, the path and contents of the table that
is being read, and whether its header has double brackets. -/
structure State where
  root    : Section
  path    : List String
  table   : Section
  inArray : Bool

namespace State

/-- The beginning of a document: entries before any header belong to the root. -/
def initial : State := ⟨.empty, [], .empty, false⟩

/-- Puts the table that is being read into its place. -/
def finish (s : State) : Option Section :=
  match s.path.getLast? with
  | none     => some s.table
  | some key =>
    s.root.within false (fun parent =>
      match parent.get? key, s.inArray with
      | none,             true  => some (parent.set key (.tables [s.table]))
      | some (.tables ts), true  => some (parent.set key (.tables (ts ++ [s.table])))
      | none,             false => some (parent.set key (.table s.table))
      | _,                _     => none) s.path.dropLast

/-- What a header in single brackets finds under its key: nothing, or a table that so far was only
implied by the headers of tables inside it. -/
def reopen? (key : String) (parent : Section) : Option Section :=
  match parent.get? key with
  | none            => some .empty
  | some (.table t) => if t.implied ∧ ¬ t.dotted then some (.mk false false t.fields) else none
  | _               => none

/-- The table at the end of a path; empty, if it is missing. -/
def parentOf : (path : List String) → Section → Section
  | [],          s => s
  | key :: path, s =>
    match s.get? key with
    | some (.table t)   => parentOf path t
    | some (.tables ts) => parentOf path (ts.getLast?.getD .empty)
    | _                 => .empty

/-- Begins the table of a header in single brackets. -/
def open? (s : State) (path : List String) (key : String) : Option State := do
  let root ← s.finish
  let table ← reopen? key (parentOf path root)
  let root ← root.within false (fun parent => some (parent.remove key)) path
  return ⟨root, path ++ [key], table, false⟩

/-- Begins one more table of a header in double brackets. -/
def openNext? (s : State) (path : List String) (key : String) : Option State := do
  let root ← s.finish
  let root ← root.within false (fun parent =>
    match parent.get? key with
    | none             => some (parent.set key (.tables []))
    | some (.tables _) => some parent
    | _                => none) path
  return ⟨root, path ++ [key], .empty, true⟩

/-- Reads a header after its first bracket. -/
def header? (s : State) (cs : List Char) : Option (State × List Char) := do
  match cs with
  | '[' :: cs => do
    let ((path, key), rest) ← key? cs
    let rest ← expect ']' (← expect ']' rest)
    return (← s.openNext? path key, ← lineEnd? rest)
  | _         => do
    let ((path, key), rest) ← key? cs
    let rest ← expect ']' rest
    return (← s.open? path key, ← lineEnd? rest)

/-- Reads an entry. -/
def entry? (s : State) (cs : List Char) : Option (State × List Char) := do
  let ((path, key), rest) ← key? cs
  let rest := skipBlanks (← expect '=' rest)
  let (d, rest) ← value? (2 * rest.length + 2) 0 rest
  return ({ s with table := ← s.table.enter path key d }, ← lineEnd? rest)

/-- Reads the lines of a document. -/
def lines? (s : State) : (fuel : Nat) → List Char → Option State
  | 0,        _  => none
  | fuel + 1, cs =>
    match skipBlanks cs with
    | []          => some s
    | '[' :: rest => do
      let (s, rest) ← s.header? rest
      lines? s fuel rest
    | '#' :: rest => do lines? s fuel (← lineEnd? ('#' :: rest))
    | c :: rest   =>
      match newline? (c :: rest) with
      | some rest => lines? s fuel rest
      | none      => do
        let (s, rest) ← s.entry? (c :: rest)
        lines? s fuel rest

end State

/-- The data of a document. A byte order mark at its beginning does not count. -/
def read? (document : String) : Option Datum := do
  let cs := document.toList
  let cs := if cs.head? = some '\ufeff' then cs.tail else cs
  let s ← State.initial.lines? (cs.length + 1) cs
  return (← s.finish).datum

end Vivarium.Toml
