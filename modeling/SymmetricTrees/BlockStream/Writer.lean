import SymmetricTrees.BlockStream.Layout

/-!
An append-only stream of padded records.
-/

set_option autoImplicit false

namespace SymmetricTrees.BlockStream

structure Writer where
  bytes : Array UInt8 := #[]

namespace Writer

variable {Value : Type}

/-- Appends a record and its padding. A record of no bytes appends nothing. -/
def write (writer : Writer) (layout : Layout Value) (value : Value) : Writer :=
  ⟨writer.bytes ++ layout.encodePadded value⟩

def length (writer : Writer) : Nat := writer.bytes.size

def toList (writer : Writer) : List UInt8 := writer.bytes.toList

theorem to_list_write (writer : Writer) (layout : Layout Value) (value : Value) :
    (writer.write layout value).toList = writer.toList ++ layout.encodePadded value := by
  simp [write, toList]

end Writer

end SymmetricTrees.BlockStream
