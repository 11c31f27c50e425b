import ApiClient.Entries

/-!
# Documents

The value that a response stands for, whatever format it came in.

* `Document`: nothing, a text, a list of documents, or entries in the order of insertion;
* `Document.ofPairs`, `Document.ofItems`: building maps and lists;
* `Document.isNull`, `asText?`, `asList?`, `asMap?`, `get?`: looking at one;
* `Document.same`: equality up to the order of entries;
* `Document.rebuilt`: a document built again from its items and entries.
-/

namespace ApiClient

/-- A value without a format of its own. -/
inductive Document where
  | null
  | text (content : String)
  | list (items : List Document)
  | map (entries : List (String × Document))
  deriving Inhabited, BEq

namespace Document

/-- The map that inserting `pairs` in order gives: the last value of a key counts. -/
def ofPairs (pairs : List (String × Document)) : Document := .map (Entries.ofPairs pairs)

/-- The list of `items`. -/
def ofItems (items : List Document) : Document := .list items

/-! ## Looking at a document -/

/-- Whether a document is the null document. -/
def isNull : Document → Bool
  | .null => true
  | _ => false

/-- The content of a text. -/
def asText? : Document → Option String
  | .text content => some content
  | _ => none

/-- The items of a list. -/
def asList? : Document → Option (List Document)
  | .list items => some items
  | _ => none

/-- The entries of a map. -/
def asMap? : Document → Option (List (String × Document))
  | .map entries => some entries
  | _ => none

/-- The value under `key`, if the document is a map that has it. -/
def get? (key : String) (d : Document) : Option Document := d.asMap?.bind (Entries.find? key)

/-! ## Equality -/

mutual

/-- Equality of documents. Maps are equal if they have as many entries and every entry of the one
is found in the other. -/
def same : Document → Document → Bool
  | .null, .null => true
  | .text a, .text b => a == b
  | .list as, .list bs => sameItems as bs
  | .map as, .map bs => as.length == bs.length && foundEntries as bs
  | _, _ => false

/-- Lists are equal item by item. -/
def sameItems : List Document → List Document → Bool
  | [], [] => true
  | a :: as, b :: bs => same a b && sameItems as bs
  | _, _ => false

/-- Every entry of the first map has its equal under the same key of the second. -/
def foundEntries : List (String × Document) → List (String × Document) → Bool
  | [], _ => true
  | (key, a) :: as, bs =>
    (match Entries.find? key bs with
      | some b => same a b
      | none => false) && foundEntries as bs

end

/-! ## Building again -/

mutual

/-- The document built again from the items and entries that it has. -/
def rebuilt : Document → Document
  | .null => .null
  | .text content => .text content
  | .list items => ofItems (rebuiltItems items)
  | .map entries => ofPairs (rebuiltEntries entries)

/-- Every item built again. -/
def rebuiltItems : List Document → List Document
  | [] => []
  | d :: rest => rebuilt d :: rebuiltItems rest

/-- Every entry's value built again. -/
def rebuiltEntries : List (String × Document) → List (String × Document)
  | [] => []
  | (key, d) :: rest => (key, rebuilt d) :: rebuiltEntries rest

end

end Document

end ApiClient
