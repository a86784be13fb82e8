import VertexEngine.Toml.Item

/-!
# Documents

A document is read line by line, and its items add up to one table.  An entry belongs to the table
of the last header before it.
-/

namespace VertexEngine.Toml

/-- The text with plain line feeds at the end of its lines. -/
def plainLines : List Char → List Char
  | '\r' :: '\n' :: rest => '\n' :: plainLines rest
  | c :: rest => c :: plainLines rest
  | [] => []

/-- The text without a byte order mark at its front. -/
def dropMark : List Char → List Char
  | '\ufeff' :: rest => rest
  | cs => cs

/-- The items on at most `count` lines, the first of which has the number `number`. -/
def itemsOf (number : Nat) : Nat → List Char → Except Fault (List Item)
  | 0, _ => .ok []
  | _, [] => .ok []
  | count + 1, cs =>
    match line cs with
    | none => .error (.malformed number)
    | some (item, rest) => do
      let number := number + (cs.count '\n' - rest.count '\n')
      return item.toList ++ (← itemsOf number count rest)

/-- The items of a text. -/
def items (text : List Char) : Except Fault (List Item) :=
  let text := plainLines (dropMark text)
  itemsOf 1 text.length text

/-- A document that is being put together. -/
structure Draft where
  table : Table := []
  /-- The path of the last header. -/
  place : List String := []

/-- Adds an item. -/
def Draft.add (d : Draft) : Item → Except Fault Draft
  | .table path key => return ⟨← d.table.openTable path key, path ++ [key]⟩
  | .element path key => return ⟨← d.table.openElement path key, path ++ [key]⟩
  | .entry path key v =>
    let change := Table.insert path key v
    return { d with table := ← Table.within false change d.place .header d.table }

/-- The table that items add up to. -/
def Table.ofItems (items : List Item) : Except Fault Table := do
  return (← items.foldlM Draft.add {}).table

/-- The table that a text describes. -/
def Table.read (text : String) : Except Fault Table := do
  Table.ofItems (← items text.toList)

end VertexEngine.Toml
